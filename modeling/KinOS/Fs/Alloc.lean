import KinOS.Fs.Write

/-!
# Growing a chain

`ExtendCluster` links the first free clusters of the volume behind the end of a chain, one FAT entry at a time, and
marks the last of them as the end. `Volume.append` is the FAT this leaves.

`Evolves` says what the file server may do to the volume on behalf of one file: its chain becomes longer by clusters
that were free, its clusters and a given set of other bytes may change, and nothing else does. Every step of a write
is such a change, and such changes compose.
-/

namespace KinOS.Fs

open Bytes

/-! ## Free clusters -/

/-- The free ones among the `k` clusters from `start` on, in the order in which the allocator comes to them. -/
def Volume.freeFrom (v : Volume) (start k : Nat) : List Nat := (List.range' start k).filter fun c => v.fatAt c = 0

/-- The free clusters of the volume. -/
def Volume.free (v : Volume) : List Nat := v.freeFrom 2 (v.bpb.top - 2)

theorem Volume.mem_free {v : Volume} {c : Nat} : c ∈ v.free ↔ v.bpb.Valid c ∧ v.fatAt c = 0 := by
  simp only [Volume.free, Volume.freeFrom, List.mem_filter, List.mem_range'_1, decide_eq_true_eq, BPB.Valid]
  omega

theorem Volume.free_nodup (v : Volume) : v.free.Nodup := List.Nodup.filter _ (List.nodup_range' ..)

theorem BPB.two_le_top (b : BPB) : 2 ≤ b.top := Nat.le_add_left ..

/-- A chain has no free cluster. -/
theorem Linked.not_free {v : Volume} : ∀ {cs : List Nat}, Linked v cs → (∀ c ∈ cs, v.bpb.Valid c) →
    ∀ c ∈ cs, v.fatAt c ≠ 0
  | [c], h, _, _, hm => by
    obtain rfl := List.mem_singleton.mp hm
    have h : 0x0ffffff8 ≤ v.fatAt _ := h
    omega
  | c :: d :: cs, h, hv, x, hm => by
    rcases List.mem_cons.mp hm with rfl | hm
    · have hd := (hv d (by simp)).1
      rw [h.1]
      omega
    · exact not_free h.2 (fun y hy => hv y (List.mem_cons_of_mem _ hy)) x hm

theorem Linked.congr {v v' : Volume} : ∀ {cs : List Nat}, Linked v cs → (∀ c ∈ cs, v'.fatAt c = v.fatAt c) →
    Linked v' cs
  | [], _, _ => trivial
  | [c], h, he => by
    have : v'.fatAt c = v.fatAt c := he c (by simp)
    change _ ≤ v'.fatAt c
    rw [this]
    exact h
  | c :: d :: cs, h, he =>
    ⟨(he c (by simp)).trans h.1, h.2.congr fun x hx => he x (List.mem_cons_of_mem _ hx)⟩

/-! ## The FAT after the links are made -/

/-- `ns` linked behind `cur`; the last of them keeps its entry. -/
def Volume.link (v : Volume) : Nat → List Nat → Volume
  | _, [] => v
  | cur, n :: ns => (v.setFat cur n).link n ns

/-- `ns` linked behind `cur`, and the end mark behind them. -/
def Volume.append (v : Volume) : Nat → List Nat → Volume
  | cur, [] => v.setFat cur 0x0fffffff
  | cur, n :: ns => (v.setFat cur n).append n ns

namespace Volume

@[simp] theorem link_bpb : ∀ (v : Volume) (cur : Nat) (ns : List Nat), (v.link cur ns).bpb = v.bpb
  | _, _, [] => rfl
  | v, cur, n :: ns => link_bpb (v.setFat cur n) n ns

@[simp] theorem append_bpb : ∀ (v : Volume) (cur : Nat) (ns : List Nat), (v.append cur ns).bpb = v.bpb
  | _, _, [] => rfl
  | v, cur, n :: ns => append_bpb (v.setFat cur n) n ns

theorem setFat_link : ∀ (v : Volume) (cur : Nat) (ns : List Nat),
    (v.link cur ns).setFat (ns.getLastD cur) 0x0fffffff = v.append cur ns
  | _, _, [] => rfl
  | v, cur, n :: ns => by
    rw [link, append, List.getLastD_cons]
    exact setFat_link _ n ns

theorem fatAt_append {c : Nat} : ∀ {v : Volume} {cur : Nat} {ns : List Nat}, c ∉ cur :: ns →
    (v.append cur ns).fatAt c = v.fatAt c
  | v, cur, [], h => fatAt_setFat_other fun he => h (by simp [he])
  | v, cur, n :: ns, h => by
    rw [append, fatAt_append fun hm => h (List.mem_cons_of_mem _ hm)]
    exact fatAt_setFat_other fun he => h (by simp [he])

theorem byteAt_append {b : BPB} (hg : b.Geometry) {c j : Nat} : ∀ {v : Volume} {cur : Nat} {ns : List Nat}, v.bpb = b →
    (∀ x ∈ cur :: ns, x < b.top) → (v.append cur ns).byteAt c j = v.byteAt c j
  | v, cur, [], hb, h => by
    subst hb
    exact byteAt_setFat hg (h cur (by simp)) j
  | v, cur, n :: ns, hb, h => by
    subst hb
    rw [append, byteAt_append (v := v.setFat cur n) hg rfl fun x hx => h x (List.mem_cons_of_mem _ hx)]
    exact byteAt_setFat hg (h cur (by simp)) j

theorem linked_append : ∀ {v : Volume} {cur : Nat} {ns : List Nat}, (cur :: ns).Nodup → (∀ x ∈ ns, x < 2 ^ 32) →
    Linked (v.append cur ns) (cur :: ns)
  | v, cur, [], _, _ => by
    change _ ≤ (v.setFat cur 0x0fffffff).fatAt cur
    rw [fatAt_setFat_self (by decide)]
    decide
  | v, cur, n :: ns, hn, hx => by
    obtain ⟨hcur, hn⟩ := List.nodup_cons.mp hn
    refine ⟨?_, linked_append hn fun x h => hx x (List.mem_cons_of_mem _ h)⟩
    rw [append, fatAt_append hcur, fatAt_setFat_self (hx n (by simp))]

/-- Behind the last cluster of a chain. -/
theorem linked_append_chain {v : Volume} {cur : Nat} {ns : List Nat} : ∀ {pre : List Nat}, Linked v (pre ++ [cur]) →
    (pre ++ cur :: ns).Nodup → (∀ x ∈ ns, x < 2 ^ 32) → Linked (v.append cur ns) (pre ++ cur :: ns)
  | [], _, hn, hx => linked_append hn hx
  | [p], h, hn, hx => by
    obtain ⟨hp, hn⟩ := List.nodup_cons.mp hn
    exact ⟨(fatAt_append hp).trans h.1, linked_append hn hx⟩
  | p :: q :: pre, h, hn, hx => by
    obtain ⟨hp, hn⟩ := List.nodup_cons.mp hn
    refine ⟨(fatAt_append fun hm => hp ?_).trans h.1, linked_append_chain h.2 hn hx⟩
    exact List.mem_append_right (q :: pre) hm

end Volume

/-! ## The loops of the allocator -/

/-- Everything but the volume and the FAT window. -/
structure Server.SameBuf (s s' : Server) : Prop where
  buf : s'.clusterBuf = s.clusterBuf
  num : s'.clusterNum = s.clusterNum
  sm : s'.sm = s.sm

namespace Server

theorem SameBuf.refl (s : Server) : SameBuf s s := ⟨rfl, rfl, rfl⟩

theorem SameBuf.trans {s t u : Server} (h : SameBuf s t) (h' : SameBuf t u) : SameBuf s u :=
  ⟨h'.buf.trans h.buf, h'.num.trans h.num, h'.sm.trans h.sm⟩

theorem getFAT_sameBuf (s : Server) (c : Nat) : SameBuf s (s.getFAT c).2 := ⟨rfl, rfl, rfl⟩

theorem putFAT_sameBuf (s : Server) (c x : Nat) : SameBuf s (s.putFAT c x) := ⟨rfl, rfl, rfl⟩

theorem putFAT_vol {s : Server} (hg : s.vol.bpb.Geometry) (c x : Nat) : (s.putFAT c x).vol = s.vol.setFat c x :=
  updateFAT_vol hg c x

theorem chainEnd_spec {b : BPB} (hg : b.Geometry) : ∀ {fuel : Nat} {s : Server} {c : Nat} {cs : List Nat},
    s.vol.bpb = b → Linked s.vol (c :: cs) → (∀ d ∈ cs, b.Valid d) → cs.length < fuel →
    ∃ s', s.chainEnd fuel c = some (cs.getLastD c, s') ∧ s'.vol = s.vol ∧ SameBuf s s'
  | fuel + 1, s, c, [], hb, h, _, _ => by
    subst hb
    have h : 0x0ffffff8 ≤ s.vol.fatAt c := h
    refine ⟨(s.getFAT c).2, ?_, rfl, getFAT_sameBuf ..⟩
    simp only [chainEnd, getFAT_entry hg, if_pos h, List.getLastD_nil]
  | fuel + 1, s, c, d :: cs, hb, h, hv, hf => by
    subst hb
    have hd := (hv d (by simp)).2
    have hm := hg.marks
    obtain ⟨s', he, hvol, hsame⟩ := chainEnd_spec hg (s := (s.getFAT c).2) (c := d) rfl h.2
      (fun x hx => hv x (List.mem_cons_of_mem _ hx)) (by simpa using hf)
    refine ⟨s', ?_, hvol, (getFAT_sameBuf s c).trans hsame⟩
    simp only [chainEnd, getFAT_entry hg, h.1]
    rw [if_neg (by omega), List.getLastD_cons]
    exact he

/-- The candidates from `cand` on: linking one of them does not change which of the later ones are free. -/
theorem freeFrom_setFat {v : Volume} {cur x cand k : Nat} (hx : x ≠ 0) (hlt : x < 2 ^ 32)
    (h : cur < cand ∨ v.fatAt cur ≠ 0) : (v.setFat cur x).freeFrom cand k = v.freeFrom cand k := by
  refine List.filter_congr fun c hc => ?_
  have hc := (List.mem_range'_1.mp hc).1
  by_cases he : c = cur
  · subst he
    have hne : v.fatAt c ≠ 0 := h.resolve_left (by omega)
    rw [Volume.fatAt_setFat_self hlt]
    simp [hx, hne]
  · rw [Volume.fatAt_setFat_other he]

/-- **The linking loop takes the first free clusters.** -/
theorem linkFree_spec {b : BPB} (hg : b.Geometry) {k fuel : Nat} {s : Server} {cand cur todo : Nat} (hb : s.vol.bpb = b)
    (htop : cand + k = b.top) (h0 : 0 < cand) (hle : todo ≤ (s.vol.freeFrom cand k).length)
    (hcur : cur < cand ∨ s.vol.fatAt cur ≠ 0) (hf : k < fuel) :
    ∃ s', s.linkFree fuel cand cur todo = some (((s.vol.freeFrom cand k).take todo).getLastD cur, s') ∧
      s'.vol = s.vol.link cur ((s.vol.freeFrom cand k).take todo) ∧ SameBuf s s' := by
  induction k generalizing fuel s cand cur todo with
  | zero =>
    obtain ⟨fuel, rfl⟩ : ∃ f, fuel = f + 1 := ⟨fuel - 1, by omega⟩
    obtain rfl : todo = 0 := by simpa [Volume.freeFrom] using hle
    exact ⟨s, by simp [linkFree], rfl, .refl s⟩
  | succ k ih =>
    obtain ⟨fuel, rfl⟩ : ∃ f, fuel = f + 1 := ⟨fuel - 1, by omega⟩
    rcases todo with - | todo
    · exact ⟨s, by simp [linkFree], rfl, .refl s⟩
    have hg' : s.vol.bpb.Geometry := by rwa [hb]
    have hm := hg.marks
    have hstep : s.vol.freeFrom cand (k + 1) =
        if s.vol.fatAt cand = 0 then cand :: s.vol.freeFrom (cand + 1) k else s.vol.freeFrom (cand + 1) k := by
      simp only [Volume.freeFrom, List.range'_succ, List.filter_cons, decide_eq_true_eq]
    rw [linkFree, if_neg (by omega)]
    simp only [getFAT_entry hg']
    by_cases hfree : s.vol.fatAt cand = 0
    · rw [if_pos hfree] at hstep
      rw [hstep, List.length_cons] at hle
      have hvol : ((s.getFAT cand).2.putFAT cur cand).vol = s.vol.setFat cur cand :=
        putFAT_vol (s := (s.getFAT cand).2) hg' _ _
      have hkeep : (s.vol.setFat cur cand).freeFrom (cand + 1) k = s.vol.freeFrom (cand + 1) k :=
        freeFrom_setFat (by omega) (by omega) (hcur.imp_left fun h => by omega)
      obtain ⟨s', he, hv', hsame⟩ := @ih fuel ((s.getFAT cand).2.putFAT cur cand) (cand + 1) cand todo
        (by rw [hvol]; exact hb) (by omega) (by omega) (by rw [hvol, hkeep]; omega)
        (.inl (by omega)) (by omega)
      rw [hvol, hkeep] at he hv'
      refine ⟨s', ?_, ?_, ((getFAT_sameBuf s cand).trans (putFAT_sameBuf ..)).trans hsame⟩
      · rw [if_neg (by simp [hfree]), hstep, List.take_succ_cons, List.getLastD_cons, Nat.add_sub_cancel]
        exact he
      · rw [hstep, List.take_succ_cons]
        exact hv'
    · rw [if_neg hfree] at hstep
      rw [if_pos hfree, hstep]
      rw [hstep] at hle
      obtain ⟨s', he, hv', hsame⟩ := @ih fuel (s.getFAT cand).2 (cand + 1) cur (todo + 1)
        hb (by omega) (by omega) hle (hcur.imp_left fun h => by omega) (by omega)
      exact ⟨s', he, hv', (getFAT_sameBuf s cand).trans hsame⟩

/-- **`ExtendCluster`** from any cluster of a chain. -/
theorem extendCluster_spec {fuel n c : Nat} {s : Server} {cs : List Nat} (hg : s.vol.bpb.Geometry)
    (h : Linked s.vol (c :: cs)) (hv : ∀ d ∈ c :: cs, s.vol.bpb.Valid d) (hn : n ≤ s.vol.free.length)
    (hf : cs.length < fuel) (hf' : s.vol.bpb.top < fuel) :
    ∃ s', s.extendCluster fuel c n = some ((s.vol.free.take n).getLastD (cs.getLastD c), s') ∧
      s'.vol = s.vol.append (cs.getLastD c) (s.vol.free.take n) ∧ SameBuf s s' := by
  obtain ⟨s1, he1, hv1, hs1⟩ := chainEnd_spec hg rfl h (fun d hd => hv d (List.mem_cons_of_mem _ hd)) hf
  have hlast : cs.getLastD c ∈ c :: cs := by
    rw [← List.getLastD_cons (a := c)]
    rcases cs with - | ⟨d, cs⟩ <;> simp [List.getLastD_eq_getLast?, List.getLast?_eq_getLast_of_ne_nil]
  have hend : s1.vol.fatAt (cs.getLastD c) ≠ 0 := hv1 ▸ h.not_free hv _ hlast
  have h2 := s.vol.bpb.two_le_top
  rw [Volume.free] at hn ⊢
  rw [← hv1] at hn hg hf' h2 ⊢
  obtain ⟨s2, he2, hv2, hs2⟩ := @linkFree_spec _ hg (s1.vol.bpb.top - 2) fuel s1 2 (cs.getLastD c) n
    rfl (by omega) (by omega) hn (.inr hend) (by omega)
  refine ⟨s2.putFAT ((s1.vol.free.take n).getLastD (cs.getLastD c)) 0x0fffffff, ?_, ?_,
    (hs1.trans hs2).trans (putFAT_sameBuf ..)⟩
  · simp only [extendCluster, he1, Option.bind_some, he2, Option.map_some]
    rfl
  · have hg2 : s2.vol.bpb.Geometry := by rwa [hv2, Volume.link_bpb]
    rw [putFAT_vol hg2, hv2]
    exact Volume.setFat_link ..

theorem firstFree_spec {b : BPB} (hg : b.Geometry) : ∀ (k : Nat) {fuel : Nat} {s : Server} {cand f : Nat} {fs : List Nat},
    s.vol.bpb = b → cand + k = b.top → s.vol.freeFrom cand k = f :: fs → k < fuel →
    ∃ s', s.firstFree fuel cand = some (f, s') ∧ s'.vol = s.vol.setFat f 0x0fffffff ∧ SameBuf s s'
  | 0, _, _, _, _, _, _, _, hfree, _ => by simp [Volume.freeFrom] at hfree
  | k + 1, fuel + 1, s, cand, f, fs, hb, htop, hfree, hf => by
    subst hb
    rw [firstFree]
    simp only [getFAT_entry hg]
    simp only [Volume.freeFrom, List.range'_succ, List.filter_cons, decide_eq_true_eq] at hfree
    by_cases hz : s.vol.fatAt cand = 0
    · rw [if_pos hz] at hfree ⊢
      obtain ⟨rfl, -⟩ := List.cons.inj hfree
      exact ⟨_, rfl, updateFAT_vol hg _ _, ⟨rfl, rfl, rfl⟩⟩
    · rw [if_neg hz] at hfree ⊢
      obtain ⟨s', he, hv', hsame⟩ := @firstFree_spec _ hg k fuel (s.getFAT cand).2 _ _ _ rfl
        (by omega) hfree (by omega)
      exact ⟨s', he, hv', (getFAT_sameBuf s cand).trans hsame⟩

end Server

/-! ## What a write may do to the volume -/

/-- The chain `own` of a file has become `own'`; elsewhere only the bytes in `P` have changed. -/
structure Evolves (P : Nat → Nat → Prop) (v v' : Volume) (own own' : List Nat) : Prop where
  bpb : v'.bpb = v.bpb
  ext : ∃ ns, own' = own ++ ns ∧ ∀ c ∈ ns, v.fatAt c = 0
  chain : IsChain v' (own'.headD 0) own'
  fat : ∀ c, v.bpb.Valid c → c ∉ own' → v'.fatAt c = v.fatAt c
  bytes : ∀ c j, v.bpb.Valid c → j < v.bpb.bytesPerCluster → c ∉ own' → ¬ P c j →
    v'.byteAt c j = v.byteAt c j

/-- All clusters keep their bytes. -/
def SameBytes (v v' : Volume) : Prop := ∀ c j, v'.byteAt c j = v.byteAt c j

namespace Evolves

variable {P : Nat → Nat → Prop} {v v' v'' : Volume} {own own' own'' : List Nat}

theorem refl (h : IsChain v (own.headD 0) own) : Evolves P v v own own where
  bpb := rfl
  ext := ⟨[], (List.append_nil _).symm, by simp⟩
  chain := h
  fat _ _ _ := rfl
  bytes _ _ _ _ _ _ := rfl

theorem trans (h : Evolves P v v' own own') (h' : Evolves P v' v'' own' own'') : Evolves P v v'' own own'' := by
  obtain ⟨ns, rfl, hns⟩ := h.ext
  obtain ⟨ns', rfl, hns'⟩ := h'.ext
  have hsub : ∀ {c}, c ∉ (own ++ ns) ++ ns' → c ∉ own ++ ns := fun hc hm => hc (List.mem_append_left _ hm)
  have hb := h.bpb
  refine ⟨h'.bpb.trans hb, ⟨ns ++ ns', by rw [List.append_assoc], fun c hc => ?_⟩, h'.chain, fun c hc hm => ?_,
    fun c j hc hj hm hf => ?_⟩
  · rcases List.mem_append.mp hc with hc | hc
    · exact hns c hc
    · -- a cluster the second step added was free after the first and not on its chain
      have hval : v.bpb.Valid c := by
        have := h'.chain.valid c (List.mem_append_right _ hc)
        rwa [h'.bpb, hb] at this
      have hnot : c ∉ own ++ ns := fun hm => (List.nodup_append.mp h'.chain.nodup).2.2 c hm c hc rfl
      rw [← h.fat c hval hnot]
      exact hns' c hc
  · rw [h'.fat c (by rwa [hb]) hm, h.fat c hc (hsub hm)]
  · rw [h'.bytes c j (by rwa [hb]) (by rwa [hb]) hm hf, h.bytes c j hc hj (hsub hm) hf]

/-- The chain grows by as much as the free clusters become fewer. -/
theorem count (h : Evolves P v v' own own') (hown : IsChain v (own.headD 0) own) :
    v'.free.length + own'.length = v.free.length + own.length := by
  obtain ⟨ns, rfl, hns⟩ := h.ext
  have hvalid : ∀ c ∈ own ++ ns, v.bpb.Valid c := by
    intro c hc
    have := h.chain.valid c hc
    rwa [h.bpb] at this
  have hused := h.chain.linked.not_free h.chain.valid
  have hperm : v.free.Perm (ns ++ v'.free) := by
    refine (List.perm_ext_iff_of_nodup v.free_nodup ?_).mpr fun c => ?_
    · refine List.nodup_append.mpr ⟨(List.nodup_append.mp h.chain.nodup).2.1, v'.free_nodup, ?_⟩
      rintro a ha b hb rfl
      exact hused a (List.mem_append_right _ ha) (Volume.mem_free.mp hb).2
    · rw [List.mem_append, Volume.mem_free, Volume.mem_free, h.bpb]
      constructor
      · rintro ⟨hc, hz⟩
        by_cases hm : c ∈ own ++ ns
        · rcases List.mem_append.mp hm with hm | hm
          · exact absurd hz (hown.linked.not_free hown.valid c hm)
          · exact .inl hm
        · exact .inr ⟨hc, (h.fat c hc hm).trans hz⟩
      · rintro (hm | ⟨hc, hz⟩)
        · exact ⟨hvalid c (List.mem_append_right _ hm), hns c hm⟩
        · have hm : c ∉ own ++ ns := fun hm => hused c hm hz
          exact ⟨hc, (h.fat c hc hm).symm.trans hz⟩
  have hlen := hperm.length_eq
  rw [List.length_append] at hlen ⊢
  omega

/-- Free clusters behind the last one. -/
theorem of_append {pre ns : List Nat} {cur : Nat} (hg : v.bpb.Geometry)
    (h : IsChain v ((pre ++ [cur]).headD 0) (pre ++ [cur])) (hns : ns.Nodup) (hfree : ∀ c ∈ ns, c ∈ v.free) :
    Evolves P v (v.append cur ns) (pre ++ [cur]) (pre ++ cur :: ns) ∧ SameBytes v (v.append cur ns) := by
  have hm := hg.marks
  have hval : ∀ c ∈ pre ++ cur :: ns, v.bpb.Valid c := by
    intro c hc
    rw [List.append_cons, List.mem_append] at hc
    exact hc.elim (h.valid c) fun hc => (Volume.mem_free.mp (hfree c hc)).1
  have hnd : (pre ++ cur :: ns).Nodup := by
    rw [List.append_cons]
    refine List.nodup_append.mpr ⟨h.nodup, hns, ?_⟩
    rintro a ha b hb rfl
    exact h.linked.not_free h.valid a ha (Volume.mem_free.mp (hfree a hb)).2
  have hbytes : SameBytes v (v.append cur ns) := fun c j =>
    Volume.byteAt_append hg rfl fun x hx => (hval x (List.mem_append_right _ hx)).2
  refine ⟨⟨Volume.append_bpb .., ⟨ns, List.append_cons .., fun c hc => (Volume.mem_free.mp (hfree c hc)).2⟩, ?_,
    fun c _ hc => Volume.fatAt_append fun hx => hc (List.mem_append_right _ hx), fun c j _ _ _ _ => hbytes c j⟩, hbytes⟩
  refine ⟨rfl, by rwa [Volume.append_bpb], hnd, Volume.linked_append_chain h.linked hnd fun x hx => ?_⟩
  have := (hval x (List.mem_append_right _ (List.mem_cons_of_mem _ hx))).2
  omega

/-- The first cluster of a file that had none. -/
theorem of_first {f : Nat} (hg : v.bpb.Geometry) (hf : f ∈ v.free) :
    Evolves P v (v.setFat f 0x0fffffff) [] [f] ∧ SameBytes v (v.setFat f 0x0fffffff) := by
  obtain ⟨hval, hz⟩ := Volume.mem_free.mp hf
  have hbytes : SameBytes v (v.setFat f 0x0fffffff) := fun c j => Volume.byteAt_setFat hg hval.2 j
  refine ⟨⟨rfl, ⟨[f], rfl, by simpa using hz⟩, ⟨rfl, by simpa using hval, by simp, ?_⟩,
    fun c _ hc => Volume.fatAt_setFat_other (by simpa using hc), fun c j _ _ _ _ => hbytes c j⟩, hbytes⟩
  change _ ≤ (v.setFat f 0x0fffffff).fatAt f
  rw [Volume.fatAt_setFat_self (by decide)]
  decide

end Evolves

theorem SameBytes.trans {v v' v'' : Volume} (h : SameBytes v v') (h' : SameBytes v' v'') : SameBytes v v'' :=
  fun c j => (h' c j).trans (h c j)

namespace Server

variable {P : Nat → Nat → Prop} {s : Server}

/-- **`AllocateClusterChain`**: a new chain of free clusters. -/
theorem allocateClusterChain_spec {fuel n : Nat} (hg : s.vol.bpb.Geometry) (h0 : 0 < s.vol.free.length)
    (hn : n ≤ s.vol.free.length) (hf : s.vol.bpb.top < fuel) :
    ∃ first own s', s.allocateClusterChain fuel n = some (first, s') ∧ own.headD 0 = first ∧ own ≠ [] ∧
      Evolves P s.vol s'.vol [] own ∧ SameBytes s.vol s'.vol ∧ SameBuf s s' := by
  obtain ⟨f, fs, hfree⟩ := List.exists_cons_of_length_pos h0
  have h2 := s.vol.bpb.two_le_top
  obtain ⟨s1, he1, hv1, hs1⟩ := @firstFree_spec _ hg (s.vol.bpb.top - 2) fuel _ _ _ _ rfl (by omega) hfree
    (by omega)
  obtain ⟨hev1, hb1⟩ := Evolves.of_first (P := P) hg (f := f) (by simp [hfree])
  rw [← hv1] at hev1 hb1
  by_cases hone : 1 < n
  · have hg1 : s1.vol.bpb.Geometry := by rwa [hev1.bpb]
    have hcount := hev1.count ⟨rfl, by simp, by simp, trivial⟩
    simp only [List.length_cons, List.length_nil] at hcount
    obtain ⟨s2, he2, hv2, hs2⟩ := @extendCluster_spec fuel (n - 1) _ _ _ hg1 hev1.chain.linked
      hev1.chain.valid (by omega) (by simp; omega) (by rw [hev1.bpb]; omega)
    obtain ⟨hev2, hb2⟩ := @Evolves.of_append P _ [] _ _ hg1 hev1.chain
      (s1.vol.free_nodup.sublist (List.take_sublist ..)) fun c hc => List.mem_of_mem_take hc
    rw [List.getLastD_nil] at hv2
    rw [← hv2] at hev2 hb2
    refine ⟨f, _, s2, ?_, rfl, List.cons_ne_nil _ _, hev1.trans hev2, hb1.trans hb2, hs1.trans hs2⟩
    simp only [allocateClusterChain, he1, Option.bind_some, if_pos hone, he2, Option.map_some]
  · refine ⟨f, [f], s1, ?_, rfl, List.cons_ne_nil _ _, hev1, hb1, hs1⟩
    simp only [allocateClusterChain, he1, Option.bind_some, if_neg hone]

/-- One step along the chain; at its end a free cluster is added. -/
theorem advance_spec {fuel c : Nat} {pre post : List Nat} (hg : s.vol.bpb.Geometry)
    (h : IsChain s.vol ((pre ++ c :: post).headD 0) (pre ++ c :: post)) (hroom : post = [] → 0 < s.vol.free.length)
    (hf : s.vol.bpb.top < fuel) :
    ∃ d post' s', s.advance fuel c = some (d, s') ∧
      Evolves P s.vol s'.vol (pre ++ c :: post) (pre ++ c :: d :: post') ∧ SameBytes s.vol s'.vol ∧ SameBuf s s' := by
  have hlk : Linked s.vol (c :: post) := h.linked.suffix
  have hval : ∀ d ∈ c :: post, s.vol.bpb.Valid d := fun d hd => h.valid d (List.mem_append_right _ hd)
  have hnext : (s.nextCluster c).1 = s.vol.next c := nextCluster_fst hg c
  have hst := hlk.starts_next hg fun d hd => hval d (List.mem_cons_of_mem _ hd)
  cases post with
  | cons d post =>
    have hd : s.vol.next c = d := hst
    obtain ⟨-, hne⟩ := (hval d (by simp)).ne hg
    refine ⟨d, post, (s.nextCluster c).2, ?_, .refl h, fun _ _ => rfl, ⟨rfl, rfl, rfl⟩⟩
    simp only [advance, hnext, hd, if_neg hne]
  | nil =>
    have hend : s.vol.next c = 0x0fffffff := if_pos hlk
    obtain ⟨f, fs, hfree⟩ := List.exists_cons_of_length_pos (hroom rfl)
    obtain ⟨s', he, hv, hsame⟩ := extendCluster_spec (s := (s.nextCluster c).2) (n := 1) hg hlk
      hval (hroom rfl) (by simp; omega) hf
    obtain ⟨hev, hb⟩ := @Evolves.of_append P _ _ [f] _ hg h (by simp) (by simp [hfree])
    rw [nextCluster_vol, hfree, List.getLastD_nil, List.take_succ_cons, List.take_zero] at he hv
    rw [← hv] at hev hb
    refine ⟨f, [], s', ?_, hev, hb, (getFAT_sameBuf s c).trans hsame⟩
    simp only [advance, hnext, hend, if_true]
    exact he

/-- `n` steps along the chain. -/
theorem advanceBy_spec {b : BPB} (hg : b.Geometry) {fuel : Nat} (hf : b.top < fuel) : ∀ {n : Nat} {s : Server} {c : Nat}
    {pre post : List Nat}, s.vol.bpb = b → IsChain s.vol ((pre ++ c :: post).headD 0) (pre ++ c :: post) →
    pre.length + n < s.vol.free.length + (pre ++ c :: post).length →
    ∃ d pre' post' s', s.advanceBy fuel n c = some (d, s') ∧
      Evolves P s.vol s'.vol (pre ++ c :: post) (pre' ++ d :: post') ∧ SameBytes s.vol s'.vol ∧
      pre'.length = pre.length + n ∧ SameBuf s s'
  | 0, s, c, pre, post, _, h, _ => ⟨c, pre, post, s, rfl, .refl h, fun _ _ => rfl, rfl, .refl s⟩
  | n + 1, s, c, pre, post, hb, h, hroom => by
    subst hb
    obtain ⟨d, post1, s1, he1, hev1, hb1, hs1⟩ := advance_spec (P := P) hg h
      (fun hp => by subst hp; simp at hroom; omega) hf
    have hcount := hev1.count h
    have hlen : (pre ++ c :: d :: post1).length = ((pre ++ [c]) ++ d :: post1).length := by simp
    obtain ⟨d', pre', post', s', he, hev, hby, hlen', hs⟩ := @advanceBy_spec _ hg _ hf n s1 d
      (pre ++ [c]) _ hev1.bpb (by simpa using hev1.chain)
      (by rw [List.length_append, List.length_singleton]; omega)
    refine ⟨d', pre', post', s', ?_, hev1.trans (by simpa using hev), hb1.trans hby, ?_, hs1.trans hs⟩
    · simp only [advanceBy, he1, Option.bind_some, he]
    · rw [hlen', List.length_append, List.length_singleton]
      omega

end Server

end KinOS.Fs
