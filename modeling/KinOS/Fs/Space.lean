import KinOS.Fs.NewFile

/-!
# The allocator, with room and without

With as many free clusters as a request needs, a chain gets exactly that many of them and no other FAT entry changes
(`extension_exact`). The loops over the candidates have no end: without room they go on behind the FAT entries of the data
area, where any four zero bytes are a free cluster, so the allocator never fails (`allocation_bounds`).

| here | there |
| --- | --- |
| `extension_exact`   | `ExtendCluster`, `AllocateClusterChain` (`servers/fs/fs.cpp:259-305`) |
| `allocation_bounds` | these and `CreateFile`, `AllocateEntry` (`fs.cpp:204-257`) |
-/

namespace KinOS.Fs

open Bytes

/-! ## Exactly the clusters that were asked for -/

/-- What an entry of a chain's FAT holds. -/
theorem Linked.entry {v : Volume} : ∀ {cs : List Nat}, Linked v cs → ∀ c ∈ cs, 0x0ffffff8 ≤ v.fatAt c ∨ v.fatAt c ∈ cs
  | [c], h, x, hx => by
    obtain rfl := List.mem_singleton.mp hx
    exact .inl h
  | c :: d :: cs, h, x, hx => by
    rcases List.mem_cons.mp hx with rfl | hx
    · rw [h.1]
      exact .inr (by simp)
    · exact (entry h.2 x hx).imp_right (List.mem_cons_of_mem _)

theorem getLastD_append_singleton {ns : List Nat} {pre : List Nat} {last d : Nat} :
    (pre ++ [last] ++ ns).getLastD d = ns.getLastD last := by
  rcases List.eq_nil_or_concat ns with rfl | ⟨ms, n, rfl⟩
  · simp
  · simp [← List.append_assoc]

/-- The chain of `cs` has got `ns` behind it, and nothing else of the FAT has changed. -/
structure Extends (v v' : Volume) (first : Nat) (cs ns : List Nat) : Prop where
  chain : IsChain v' first (cs ++ ns)
  nodup : ns.Nodup
  wasFree : ∀ c ∈ ns, c ∈ v.free
  other : ∀ c, c ∉ ns → cs.getLast? ≠ some c → v'.fatAt c = v.fatAt c

/-- **`ExtendCluster`** from any cluster of a chain. -/
theorem Server.extendCluster_exact {s : Server} {fuel first c n : Nat} {cs : List Nat} (hg : s.vol.bpb.Geometry)
    (hf : s.vol.bpb.top < fuel) (h : IsChain s.vol first cs) (hc : c ∈ cs) (hn : n ≤ s.vol.free.length) :
    ∃ ns s', s.extendCluster fuel c n = some ((cs ++ ns).getLastD 0, s') ∧ ns.length = n ∧
      Extends s.vol s'.vol first cs ns := by
  obtain ⟨pre, post, rfl⟩ := List.append_of_mem hc
  have hlen := h.length_le
  rw [List.length_append, List.length_cons] at hlen
  obtain ⟨s', hx, hvol, -⟩ := @extendCluster_spec fuel n c s post hg h.linked.suffix
    (fun d hd => h.valid d (List.mem_append_right _ hd)) hn (by omega) hf
  -- the chain up to its last cluster
  obtain ⟨p, last, hsplit, hlast⟩ : ∃ p last, pre ++ c :: post = p ++ [last] ∧ post.getLastD c = last := by
    rcases List.eq_nil_or_concat post with rfl | ⟨qs, q, rfl⟩
    · exact ⟨pre, c, rfl, rfl⟩
    · exact ⟨pre ++ c :: qs, q, by simp, by simp⟩
  have hfree : ∀ x ∈ s.vol.free.take n, x ∈ s.vol.free := fun x hx => List.mem_of_mem_take hx
  have hnd := s.vol.free_nodup.sublist (List.take_sublist n _)
  rw [hlast] at hx hvol
  rw [hsplit] at h ⊢
  obtain ⟨hev, -⟩ := Evolves.of_append (P := NoByte) hg h.self hnd hfree
  rw [← hvol] at hev
  refine ⟨s.vol.free.take n, s', ?_, by simpa using hn, ⟨?_, hnd, hfree, fun x hxs hxl => ?_⟩⟩
  · rw [getLastD_append_singleton]
    exact hx
  · have hhead : (p ++ [last] ++ s.vol.free.take n).headD 0 = first := by
      rw [← h.head]
      cases p <;> rfl
    rw [← hhead]
    have hchain := hev.chain
    rwa [List.append_cons p] at hchain
  · rw [hvol]
    refine Volume.fatAt_append fun hmem => ?_
    rcases List.mem_cons.mp hmem with rfl | hmem
    · exact hxl (by simp)
    · exact hxs hmem

/-- **`AllocateClusterChain`**: a chain of its own. -/
theorem Server.allocateClusterChain_exact {s : Server} {fuel n : Nat} (hg : s.vol.bpb.Geometry) (hf : s.vol.bpb.top < fuel)
    (hn : max n 1 ≤ s.vol.free.length) :
    ∃ cs s', s.allocateClusterChain fuel n = some (cs.headD 0, s') ∧ cs.length = max n 1 ∧
      Extends s.vol s'.vol (cs.headD 0) [] cs ∧ s'.vol.bpb = s.vol.bpb := by
  obtain ⟨f, fs, hfree⟩ := List.exists_cons_of_length_pos (show 0 < s.vol.free.length by omega)
  have h2 := s.vol.bpb.two_le_top
  have hff : f ∈ s.vol.free := by simp [hfree]
  obtain ⟨s1, he1, hv1, -⟩ := @firstFree_spec _ hg (s.vol.bpb.top - 2) fuel _ _ _ _ rfl (by omega) hfree (by omega)
  obtain ⟨hev1, -⟩ := Evolves.of_first (P := NoByte) hg hff
  rw [← hv1] at hev1
  have hb1 := hev1.bpb
  have hother : ∀ c, c ≠ f → s1.vol.fatAt c = s.vol.fatAt c := by
    intro c hc
    rw [hv1]
    exact Volume.fatAt_setFat_other hc
  by_cases hone : 1 < n
  · have hcount := hev1.count ⟨rfl, by simp, by simp, trivial⟩
    simp only [List.length_cons, List.length_nil] at hcount
    obtain ⟨ns, s', hx, hlen, hext⟩ := @extendCluster_exact s1 fuel f f (n - 1) [f] (by rwa [hb1]) (by rwa [hb1])
      hev1.chain (by simp) (by omega)
    refine ⟨f :: ns, s', ?_, by simp only [List.length_cons, hlen]; omega,
      ⟨hext.chain, ?_, fun c hc => ?_, fun c hc _ => ?_⟩, (extendCluster_bpb hx).trans hb1⟩
    · simp only [allocateClusterChain, he1, Option.bind_some, if_pos hone, hx, Option.map_some, List.headD_cons]
    · exact hext.chain.nodup
    · rcases List.mem_cons.mp hc with rfl | hcn
      · exact hff
      · obtain ⟨hval, hz⟩ := Volume.mem_free.mp (hext.wasFree c hcn)
        have hnd : (f :: ns).Nodup := hext.chain.nodup
        have hne : c ≠ f := fun he => (List.nodup_cons.mp hnd).1 (he ▸ hcn)
        exact Volume.mem_free.mpr ⟨hb1 ▸ hval, (hother c hne).symm.trans hz⟩
    · have hne : c ≠ f := fun he => hc (by simp [he])
      rw [hext.other c (fun hm => hc (List.mem_cons_of_mem _ hm)) (by simpa using Ne.symm hne), hother c hne]
  · refine ⟨[f], s1, ?_, by simp only [List.length_singleton]; omega,
      ⟨hev1.chain, by simp, by simpa using hff, fun c hc _ => ?_⟩, hb1⟩
    · simp only [allocateClusterChain, he1, Option.bind_some, if_neg hone, List.headD_cons]
    · exact hother c (by simpa using hc)

/-- No chain of the volume holds a free cluster, so every one stays as it is. -/
theorem Extends.existing {v v' : Volume} {f first : Nat} {cs ds : List Nat} (h : Extends v v' f [] cs)
    (hb : v'.bpb = v.bpb) (hds : IsChain v first ds) : ds.Disjoint cs ∧ IsChain v' first ds := by
  have hapart : ∀ c ∈ ds, c ∉ cs := fun c hc hm =>
    hds.linked.not_free hds.valid c hc (Volume.mem_free.mp (h.wasFree c hm)).2
  refine ⟨fun c hc hm => hapart c hc hm, hds.head, by rw [hb]; exact hds.valid, hds.nodup,
    hds.linked.congr fun c hc => h.other c (hapart c hc) (by simp)⟩

/-- **Extension is exact.** From any cluster of a chain `ExtendCluster` appends exactly `n` free clusters to the chain and
returns its last one, if there are `n`; `AllocateClusterChain` makes a chain of `max n 1` free clusters, apart from every
other. No other FAT entry changes. -/
theorem extension_exact {s : Server} (hg : s.vol.bpb.Geometry) : ∀ fuel > s.vol.bpb.top,
    (∀ first cs c n, IsChain s.vol first cs → c ∈ cs → n ≤ s.vol.free.length →
      ∃ ns s', s.extendCluster fuel c n = some ((cs ++ ns).getLastD 0, s') ∧ ns.length = n ∧
        Extends s.vol s'.vol first cs ns) ∧
    ∀ n, max n 1 ≤ s.vol.free.length →
      ∃ cs s', s.allocateClusterChain fuel n = some (cs.headD 0, s') ∧ cs.length = max n 1 ∧
        Extends s.vol s'.vol (cs.headD 0) [] cs ∧
        ∀ first ds, IsChain s.vol first ds → ds.Disjoint cs ∧ IsChain s'.vol first ds := by
  intro fuel hf
  refine ⟨fun first cs c n h hc hn => Server.extendCluster_exact hg hf h hc hn, fun n hn => ?_⟩
  obtain ⟨cs, s', hx, hlen, hext, hb⟩ := Server.allocateClusterChain_exact hg hf hn
  exact ⟨cs, s', hx, hlen, hext, fun first ds hds => hext.existing hb hds⟩

theorem extension_twoBytes : (∃ ns s', twoBytesServer.extendCluster 9 3 1 = some (([3] ++ ns).getLastD 0, s') ∧
      ns.length = 1 ∧ Extends twoBytes s'.vol 3 [3] ns) ∧
    ∃ cs s', twoBytesServer.allocateClusterChain 9 0 = some (cs.headD 0, s') ∧ cs.length = 1 ∧
      Extends twoBytes s'.vol (cs.headD 0) [] cs := by
  obtain ⟨hextend, halloc⟩ := extension_exact (s := twoBytesServer) twoBytes_geometry 9 (by decide)
  obtain ⟨cs, s', hx, hlen, hext, -⟩ := halloc 0 (by decide)
  exact ⟨hextend 3 [3] 3 1 twoBytes_fileChain (by simp) (by decide), cs, s', hx, hlen, hext⟩

/-- The volume of two bytes with its last cluster in use. -/
def fullVolume : Volume where
  bpb := twoBytes.bpb
  image := fun a => if 528 ≤ a ∧ a < 532 then (if a = 531 then 0x0f else 0xff) else twoBytes.image a

def fullServer : Server := { twoBytesServer with vol := fullVolume }

/-- On a full volume there is no cluster for the chain that a length of 0 asks for: the allocator takes cluster 5, which
is none. -/
theorem allocateClusterChain_full : fullVolume.bpb.Geometry ∧ fullServer.vol = fullVolume ∧ 0 ≤ fullVolume.free.length ∧
    (fullServer.allocateClusterChain 9 0).map Prod.fst = some 5 ∧ ¬ fullVolume.bpb.Valid 5 ∧
    ¬ ∃ (fuel : Nat) (cs : List Nat) (s' : Server), fullServer.allocateClusterChain fuel 0 = some (cs.headD 0, s') ∧
      cs.length = max 0 1 ∧ ∀ c ∈ cs, c ∈ fullVolume.free := by
  have hfree : fullVolume.free = [] := by decide
  refine ⟨twoBytes_geometry, rfl, Nat.zero_le _, by decide, by decide, ?_⟩
  rintro ⟨fuel, cs, s', -, hlen, hall⟩
  obtain ⟨c, rfl⟩ := List.length_eq_one_iff.mp hlen
  have hc := hall c (by simp)
  rw [hfree] at hc
  cases hc

/-! ## Without room -/

namespace Server

theorem putFAT_changes {s : Server} {c x : Nat} (hg : s.vol.bpb.Geometry) (hx : x < 2 ^ 32) :
    (s.putFAT c x).vol.fatAt c = x := by
  rw [putFAT_vol hg]
  exact Volume.fatAt_setFat_self hx

/-- The candidate that is taken: the first whose entry is 0, wherever the entry lies. -/
theorem firstFree_past : ∀ {fuel : Nat} {s s' : Server} {cand f : Nat}, s.vol.bpb.Geometry →
    s.firstFree fuel cand = some (f, s') → s.vol.fatAt f = 0 ∧ (∀ x, cand ≤ x → x < f → s.vol.fatAt x ≠ 0) ∧
      s'.vol = s.vol.setFat f 0x0fffffff
  | fuel + 1, s, s', cand, f, hg, h => by
    rw [firstFree] at h
    simp only [getFAT_entry hg] at h
    by_cases hz : s.vol.fatAt cand = 0
    · rw [if_pos hz] at h
      obtain ⟨rfl, rfl⟩ := Prod.mk.inj (Option.some.inj h)
      exact ⟨hz, fun x h1 h2 => by omega, updateFAT_vol hg _ _⟩
    · rw [if_neg hz] at h
      obtain ⟨hf, hbefore, hvol⟩ := firstFree_past (s := (s.getFAT cand).2) hg h
      refine ⟨hf, fun x h1 h2 => ?_, hvol⟩
      rcases Nat.eq_or_lt_of_le h1 with rfl | h1
      · exact hz
      · exact hbefore x h1 h2

/-- The cluster the linking loop ends at was a free candidate, wherever its entry lies. It cannot be the one the loop
started behind: that was in use, and is given a candidate's number. -/
theorem linkFree_past : ∀ {fuel : Nat} {s s' : Server} {cand cur todo cur' : Nat}, s.vol.bpb.Geometry → 0 < cand →
    (cur < cand ∨ s.vol.fatAt cur ≠ 0 ∧ ∀ x, cand ≤ x → x < cur → s.vol.fatAt x = 0 → x < 2 ^ 32) → 0 < todo →
    s.linkFree fuel cand cur todo = some (cur', s') → cand ≤ cur' ∧ s.vol.fatAt cur' = 0
  | fuel + 1, s, s', cand, cur, todo, cur', hg, h0, hcur, htodo, h => by
    rw [linkFree, if_neg (by omega)] at h
    simp only [getFAT_entry hg] at h
    by_cases hz : s.vol.fatAt cand = 0
    · rw [if_neg (by simp [hz])] at h
      have hvol : ((s.getFAT cand).2.putFAT cur cand).vol = s.vol.setFat cur cand :=
        putFAT_vol (s := (s.getFAT cand).2) hg _ _
      by_cases hlast : todo = 1
      · subst hlast
        obtain ⟨fuel, rfl⟩ : ∃ k, fuel = k + 1 := by
          cases fuel with
          | zero => simp [linkFree] at h
          | succ k => exact ⟨k, rfl⟩
        rw [linkFree, if_pos rfl] at h
        obtain ⟨rfl, -⟩ := Prod.mk.inj (Option.some.inj h)
        exact ⟨Nat.le_refl _, hz⟩
      · obtain ⟨hle, hfat⟩ := linkFree_past (by rwa [hvol]) (Nat.succ_pos cand) (.inl (Nat.lt_succ_self cand)) (by omega) h
        refine ⟨by omega, ?_⟩
        rw [hvol] at hfat
        by_cases heq : cur' = cur
        · -- the entry of `cur` holds the candidate now
          subst heq
          obtain ⟨-, hsmall⟩ := hcur.resolve_left (by omega)
          rw [Volume.fatAt_setFat_self (hsmall cand (Nat.le_refl _) (by omega) hz)] at hfat
          omega
        · rwa [Volume.fatAt_setFat_other heq] at hfat
    · rw [if_pos hz] at h
      obtain ⟨hle, hfat⟩ := linkFree_past (s := (s.getFAT cand).2) hg (Nat.succ_pos cand)
        (hcur.imp (by omega) fun h' => ⟨h'.1, fun x hx => h'.2 x (by omega)⟩) htodo h
      exact ⟨by omega, hfat⟩

/-- **Asked for a cluster, `ExtendCluster` marks one that was free**, whether there is one or not. -/
theorem extendCluster_marks {s s' : Server} {fuel c n r last : Nat} (hg : s.vol.bpb.Geometry) (hn : 0 < n)
    (hend : ∀ {u : Server} {l : Nat}, s.chainEnd fuel c = some (l, u) → l = last)
    (hlast : s.vol.fatAt last ≠ 0 ∧ ∀ x, 2 ≤ x → x < last → s.vol.fatAt x = 0 → x < 2 ^ 32)
    (h : s.extendCluster fuel c n = some (r, s')) : s.vol.fatAt r = 0 ∧ s'.vol.fatAt r = 0x0fffffff := by
  obtain ⟨⟨l, u⟩, hu, h⟩ := Option.bind_eq_some_iff.1 h
  obtain ⟨⟨cur, w⟩, hw, h⟩ := Option.map_eq_some_iff.1 h
  obtain ⟨rfl, rfl⟩ := Prod.mk.inj h
  obtain rfl := hend hu
  have huv := chainEnd_vol hu
  have hgu : u.vol.bpb.Geometry := by rwa [huv]
  have hgw : w.vol.bpb.Geometry := by rwa [linkFree_bpb hw]
  obtain ⟨-, hfree⟩ := linkFree_past hgu (by decide) (.inr (by rwa [huv])) hn hw
  exact ⟨by rwa [huv] at hfree, putFAT_changes hgw (by decide)⟩

theorem chainEnd_last {b : BPB} (hg : b.Geometry) : ∀ {fuel : Nat} {s u : Server} {c l : Nat} {cs : List Nat},
    s.vol.bpb = b →
    Linked s.vol (c :: cs) → (∀ d ∈ cs, b.Valid d) → s.chainEnd fuel c = some (l, u) → l = cs.getLastD c
  | fuel + 1, s, u, c, l, [], hb, hl, _, h => by
    subst hb
    have hend : 0x0ffffff8 ≤ s.vol.fatAt c := hl
    simp only [chainEnd, getFAT_entry hg, if_pos hend] at h
    exact (Prod.mk.inj (Option.some.inj h)).1.symm
  | fuel + 1, s, u, c, l, d :: cs, hb, hl, hv, h => by
    subst hb
    have hd := (hv d (by simp)).2
    have hm := hg.marks
    simp only [chainEnd, getFAT_entry hg, hl.1] at h
    rw [if_neg (by omega)] at h
    rw [List.getLastD_cons]
    exact chainEnd_last hg (s := (s.getFAT c).2) rfl hl.2 (fun x hx => hv x (List.mem_cons_of_mem _ hx)) h

theorem allocateClusterChain_marks {s s' : Server} {fuel n f : Nat} (hg : s.vol.bpb.Geometry)
    (h : s.allocateClusterChain fuel n = some (f, s')) : ∃ x, s.vol.fatAt x = 0 ∧ s'.vol.fatAt x ≠ 0 := by
  obtain ⟨⟨first, u⟩, hu, h⟩ := Option.bind_eq_some_iff.1 h
  obtain ⟨hz, hbefore, hvol⟩ := firstFree_past hg hu
  have hgu : u.vol.bpb.Geometry := by
    rw [hvol]
    exact hg
  have hmark : u.vol.fatAt first = 0x0fffffff := by
    rw [hvol]
    exact Volume.fatAt_setFat_self (by decide)
  have hother : ∀ x, x ≠ first → u.vol.fatAt x = s.vol.fatAt x := by
    intro x hx
    rw [hvol]
    exact Volume.fatAt_setFat_other hx
  dsimp only at h
  by_cases hone : 1 < n
  · rw [if_pos hone] at h
    obtain ⟨⟨r, w⟩, hw, h⟩ := Option.map_eq_some_iff.1 h
    obtain ⟨rfl, rfl⟩ := Prod.mk.inj h
    have hend : ∀ {t : Server} {l : Nat}, u.chainEnd fuel first = some (l, t) → l = first := by
      intro t l hl
      refine @chainEnd_last _ hgu _ _ _ _ _ [] rfl ?_ (by simp) hl
      show 0x0ffffff8 ≤ u.vol.fatAt first
      rw [hmark]
      decide
    have hlast : u.vol.fatAt first ≠ 0 ∧ ∀ x, 2 ≤ x → x < first → u.vol.fatAt x = 0 → x < 2 ^ 32 := by
      refine ⟨by rw [hmark]; decide, fun x h2 hlt hx => absurd ?_ (hbefore x h2 hlt)⟩
      rwa [hother x (by omega)] at hx
    obtain ⟨hr, hr'⟩ := extendCluster_marks hgu (show 0 < n - 1 by omega) hend hlast hw
    have hne : r ≠ first := by
      rintro rfl
      rw [hmark] at hr
      cases hr
    exact ⟨r, (hother r hne).symm.trans hr, by rw [hr']; decide⟩
  · rw [if_neg hone] at h
    obtain ⟨rfl, rfl⟩ := Prod.mk.inj (Option.some.inj h)
    exact ⟨first, hz, by rw [hmark]; decide⟩

/-- `CreateFile` never answers `ENOSPC`. -/
theorem createIn_never_full {s s' : Server} {fuel c : Nat} {name : List UInt8} (hg : s.vol.bpb.Geometry) :
    s.createIn fuel c name ≠ some (s', .error .ENOSPC) := by
  intro h
  obtain ⟨⟨t, dir, allocated⟩, ht, he⟩ := Option.map_eq_some_iff.1 h
  have htakes := @allocateEntry_openSlot fuel fuel s c hg
  rw [ht] at htakes
  cases dir with
  | some i =>
    have hcon := (Prod.mk.inj he).2
    cases hcon
  | none =>
    cases ho : openSlot s.vol fuel c with
    | none =>
      rw [ho] at htakes
      cases (show some (t, none, allocated) = none from htakes)
    | some r =>
      rw [ho] at htakes
      cases r with
      | inl e =>
        obtain ⟨u, hu, -⟩ := htakes
        have hcon := (Prod.mk.inj (Prod.mk.inj (Option.some.inj hu)).2).1
        cases hcon
      | inr last =>
        obtain ⟨u, -, -, hu⟩ := htakes
        obtain ⟨⟨r, w⟩, -, hw⟩ := Option.map_eq_some_iff.1 hu.symm
        have hcon := (Prod.mk.inj (Prod.mk.inj hw).2).1
        cases hcon

theorem createFile_never_full {s s' : Server} {fuel : Nat} {path : List UInt8} (hg : s.vol.bpb.Geometry) :
    s.createFile fuel path ≠ some (s', .error .ENOSPC) := by
  intro h
  rcases createFile_cases hg h with ⟨-, hr | hr⟩ | ⟨c, name, t, -, hv, -, hin⟩
  · cases hr
  · cases hr
  · exact createIn_never_full (by rwa [hv]) hin

end Server

/-! ## With room again: creating a file -/

theorem openSlot_ends {v : Volume} (hg : v.bpb.Geometry) : ∀ {fuel c : Nat} {cs : List Nat}, Linked v (c :: cs) →
    (∀ d ∈ c :: cs, v.bpb.Valid d) → cs.length < fuel → ∃ r, openSlot v fuel c = some r
  | fuel + 1, c, cs, hl, hv, hf => by
    rw [openSlot]
    cases hm : freeSlot (v.cluster c) v.bpb.entriesPerCluster with
    | some i => exact ⟨_, rfl⟩
    | none =>
      cases cs with
      | nil =>
        have hend : v.next c = 0x0fffffff := if_pos hl
        exact ⟨_, if_pos hend⟩
      | cons d cs =>
        have hd : v.next c = d := hl.starts_next hg fun x hx => hv x (List.mem_cons_of_mem _ hx)
        obtain ⟨r, hr⟩ := openSlot_ends hg hl.2 (fun x hx => hv x (List.mem_cons_of_mem _ hx)) (by simpa using hf)
        refine ⟨r, ?_⟩
        simp only [hd, if_neg ((hv d (by simp)).ne hg).2]
        exact hr

/-- A change of a cluster changes no entry of the FAT. -/
theorem Volume.fatAt_setCluster_fat {v : Volume} (hg : v.bpb.Geometry) {c x : Nat} {buf : Mem}
    (hx : x < 128 * v.bpb.fatSize32.toNat) : (v.setCluster c buf).fatAt x = v.fatAt x := by
  have hf : v.bpb.fatSize32.toNat ≤ v.bpb.numFats.toNat * v.bpb.fatSize32.toNat := Nat.le_mul_of_pos_left _ hg.fats
  refine load_copy_outside (.inl ?_)
  simp only [setCluster_bpb, BPB.fatAddr, BPB.clusterAddr]
  omega

namespace Server

variable {s : Server}

/-- The parent directory is found, given time. -/
theorem createFile_parent {path : List UInt8} {c : Nat} {name : List UInt8} (hg : s.vol.bpb.Geometry)
    (h : ParentOf s.vol path c name) : ∃ F, ∀ fuel ≥ F, ∀ u : Server, u.vol = s.vol →
      ∃ t : Server, t.vol = s.vol ∧ u.createFile fuel path = t.createIn fuel c name := by
  cases h with
  | plain hsp => exact ⟨0, fun fuel _ u hu => ⟨u, hu, by simp only [createFile, hsp, hu]⟩⟩
  | root hsp hne => exact ⟨0, fun fuel _ u hu => ⟨u, hu, by simp only [createFile, hsp, if_neg hne, if_true, hu]⟩⟩
  | dir hsp hne hp hn =>
    obtain ⟨F, hF⟩ := findFile_names hg hn
    refine ⟨F, fun fuel hf u hu => ?_⟩
    obtain ⟨t, p, ht, hfound⟩ := hF fuel hf u hu
    refine ⟨t, hfound.vol.trans hu, ?_⟩
    rename_i d
    have hfirst : firstCluster t.clusterBuf (32 * d.2) = s.vol.first d := by
      rw [hfound.loaded.first (by rw [hfound.vol]; exact hfound.index), hfound.vol, hu]
    simp only [createFile, hsp, if_neg hne, if_neg hp, ht, hfirst]

theorem createIn_slot {fuel c : Nat} {name : List UInt8} {e : Slot} (hg : s.vol.bpb.Geometry)
    (ho : openSlot s.vol fuel c = some (.inl e)) :
    ∃ t : Server, Found s t e ∧ s.createIn fuel c name = some (t.writeEntry e name, .ok e) := by
  have htakes := @allocateEntry_openSlot fuel fuel s c hg
  rw [ho] at htakes
  obtain ⟨t, he, hfound⟩ := htakes
  refine ⟨t, hfound, ?_⟩
  simp only [createIn, he, Option.map_some]

theorem createIn_new {fuel c last : Nat} {name : List UInt8} (hg : s.vol.bpb.Geometry)
    (ho : openSlot s.vol fuel c = some (.inr last)) : ∃ t : Server, t.vol = s.vol ∧ s.createIn fuel c name =
      (t.extendCluster fuel last 1).map fun r => ((r.2.clearedCluster r.1).writeEntry (r.1, 0) name, .ok (r.1, 0)) := by
  have htakes := @allocateEntry_openSlot fuel fuel s c hg
  rw [ho] at htakes
  obtain ⟨t, hv, -, he⟩ := htakes
  refine ⟨t, hv, ?_⟩
  rw [createIn, he, Option.map_map]
  rfl

end Server

/-! ## The bounds of an allocation -/

/-- Every FAT entry that has changed is one of the data area, and holds an end mark or a cluster of the data area. -/
def LinksInside (v v' : Volume) : Prop := ∀ x < 128 * v.bpb.fatSize32.toNat, v'.fatAt x ≠ v.fatAt x →
  v.bpb.Valid x ∧ (0x0ffffff8 ≤ v'.fatAt x ∨ v.bpb.Valid (v'.fatAt x))

/-- What is expected of a request that needs `k` clusters: it ends, links clusters of the data area, and if there are not as
many free ones, reports it and leaves the image. -/
def Respects {ρ : Type} (s : Server) (k : Nat) (run : Nat → Option (ρ × Server)) (reports : ρ → Prop) : Prop :=
  ∃ fuel r s', run fuel = some (r, s') ∧ LinksInside s.vol s'.vol ∧
    (s.vol.free.length < k → reports r ∧ s'.vol.image = s.vol.image)

/-- The clusters `CreateFile` needs: one if the parent directory has no free slot. -/
inductive NeedsClusters (v : Volume) (path : List UInt8) : Nat → Prop
  | none {d : Slot} : TakesSlot v path d → NeedsClusters v path 0
  | one : (∀ d, ¬ TakesSlot v path d) → NeedsClusters v path 1

theorem Extends.linksInside {v v' : Volume} {first : Nat} {cs ns : List Nat} (h : Extends v v' first cs ns)
    (hb : v'.bpb = v.bpb) : LinksInside v v' := by
  intro x _ hne
  have hmem : x ∈ cs ++ ns := by
    by_contra hx
    rw [List.mem_append, not_or] at hx
    refine hne (h.other x hx.2 fun hl => hx.1 ?_)
    exact List.mem_of_getLast? hl
  have hval : ∀ c ∈ cs ++ ns, v.bpb.Valid c := by
    intro c hc
    rw [← hb]
    exact h.chain.valid c hc
  exact ⟨hval x hmem, (h.chain.linked.entry x hmem).imp_right (hval _)⟩

section Bounds

variable {s : Server}

theorem extendCluster_respects (hg : s.vol.bpb.Geometry) {first c n : Nat} {cs : List Nat} (h : IsChain s.vol first cs)
    (hc : c ∈ cs) : Respects s n (fun fuel => s.extendCluster fuel c n) (fun _ => True) ↔ n ≤ s.vol.free.length := by
  constructor
  · rintro ⟨fuel, r, s', hrun, -, hshort⟩
    by_contra hlt
    obtain ⟨pre, post, rfl⟩ := List.append_of_mem hc
    have hval : ∀ d ∈ c :: post, s.vol.bpb.Valid d := fun d hd => h.valid d (List.mem_append_right _ hd)
    have hmem : post.getLastD c ∈ c :: post := by
      rw [← List.getLastD_cons (a := c)]
      rcases post with - | ⟨d, post⟩ <;> simp [List.getLastD_eq_getLast?, List.getLast?_eq_getLast_of_ne_nil]
    have htop := (hval _ hmem).2
    have hm := hg.marks
    obtain ⟨hzero, hmark⟩ := Server.extendCluster_marks hg (by omega)
      (fun hl => Server.chainEnd_last hg rfl h.linked.suffix (fun d hd => hval d (List.mem_cons_of_mem _ hd)) hl)
      ⟨h.linked.suffix.not_free hval _ hmem, fun x _ hx _ => by omega⟩ hrun
    have hsame : s'.vol.fatAt r = s.vol.fatAt r := by
      rw [Volume.fatAt, Volume.fatAt, (hshort (by omega)).2, Server.extendCluster_bpb hrun]
    rw [hsame, hzero] at hmark
    cases hmark
  · intro hn
    obtain ⟨ns, s', hx, -, hext⟩ := Server.extendCluster_exact hg (Nat.lt_succ_self _) h hc hn
    exact ⟨_, _, s', hx, hext.linksInside (Server.extendCluster_bpb hx), fun hlt => by omega⟩

theorem firstFree_bpb : ∀ {fuel : Nat} {s s' : Server} {cand f : Nat}, s.firstFree fuel cand = some (f, s') →
    s'.vol.bpb = s.vol.bpb
  | fuel + 1, s, s', cand, f, h => by
    rw [Server.firstFree] at h
    dsimp only at h
    split at h
    · obtain ⟨-, rfl⟩ := Prod.mk.inj (Option.some.inj h)
      rfl
    · exact firstFree_bpb (s := (s.getFAT cand).2) h

theorem allocateClusterChain_bpb {fuel n f : Nat} {s' : Server} (h : s.allocateClusterChain fuel n = some (f, s')) :
    s'.vol.bpb = s.vol.bpb := by
  obtain ⟨⟨first, u⟩, hu, h⟩ := Option.bind_eq_some_iff.1 h
  have hub := firstFree_bpb hu
  dsimp only at h
  split at h
  · obtain ⟨⟨r, w⟩, hw, h⟩ := Option.map_eq_some_iff.1 h
    obtain ⟨-, rfl⟩ := Prod.mk.inj h
    exact (Server.extendCluster_bpb hw).trans hub
  · obtain ⟨-, rfl⟩ := Prod.mk.inj (Option.some.inj h)
    exact hub

theorem allocateClusterChain_respects (hg : s.vol.bpb.Geometry) (n : Nat) :
    Respects s (max n 1) (fun fuel => s.allocateClusterChain fuel n) (fun _ => True) ↔ max n 1 ≤ s.vol.free.length := by
  constructor
  · rintro ⟨fuel, f, s', hrun, -, hshort⟩
    by_contra hlt
    obtain ⟨x, hzero, hne⟩ := Server.allocateClusterChain_marks hg hrun
    refine hne ?_
    rw [Volume.fatAt, (hshort (by omega)).2, allocateClusterChain_bpb hrun]
    exact hzero
  · intro hn
    obtain ⟨cs, s', hx, -, hext, hb⟩ := Server.allocateClusterChain_exact hg (Nat.lt_succ_self _) hn
    exact ⟨_, _, s', hx, hext.linksInside hb, fun hlt => by omega⟩

/-- **`CreateFile` with room for the entry**, given time: in a free slot, or in a new cluster behind the directory. -/
theorem createFile_runs (hg : s.vol.bpb.Geometry) {path : List UInt8} {c : Nat} {name : List UInt8} {ds : List Nat}
    (hp : ParentOf s.vol path c name) (hds : IsChain s.vol c ds) (hne : ds ≠ [])
    (hroom : ∀ fuel last, openSlot s.vol fuel c = some (.inr last) → 0 < s.vol.free.length) : ∃ F, ∀ fuel ≥ F,
      ∀ u : Server, u.vol = s.vol →
      (∃ (e : Slot) (t : Server), openSlot s.vol fuel c = some (.inl e) ∧ t.vol = s.vol ∧ t.Loaded e.1 ∧
        u.createFile fuel path = some (t.writeEntry e name, .ok e)) ∨
      ∃ (last n : Nat) (t : Server), openSlot s.vol fuel c = some (.inr last) ∧ t.vol = s.vol.append last [n] ∧
        Extends s.vol t.vol c ds [n] ∧
        u.createFile fuel path = some ((t.clearedCluster n).writeEntry (n, 0) name, .ok (n, 0)) := by
  obtain ⟨F, hF⟩ := Server.createFile_parent hg hp
  refine ⟨max F (s.vol.bpb.top + 1), fun fuel hfuel u hu => ?_⟩
  obtain ⟨t, hv, hrun⟩ := hF fuel (by omega) u hu
  have hlen := hds.length_le
  obtain ⟨f, fs, rfl⟩ := List.exists_cons_of_ne_nil hne
  obtain rfl : f = c := hds.head
  have hgt : t.vol.bpb.Geometry := by rwa [hv]
  obtain ⟨r, hr⟩ := @openSlot_ends _ hg fuel _ _ hds.linked hds.valid (by simp only [List.length_cons] at hlen; omega)
  have hrt := hr
  rw [← hv] at hrt
  cases r with
  | inl e =>
    obtain ⟨x, hfound, hcreate⟩ := @Server.createIn_slot _ _ _ name _ hgt hrt
    exact .inl ⟨e, x, hr, hfound.vol.trans hv, hfound.loaded, hrun.trans hcreate⟩
  | inr last =>
    obtain ⟨x, hxv, hcreate⟩ := @Server.createIn_new _ _ _ _ name hgt hrt
    obtain ⟨pre, hsplit⟩ := openSlot_opens hg hds.linked hds.valid hr
    have hxv : x.vol = s.vol := hxv.trans hv
    have hfree := hroom fuel last hr
    have hgx : x.vol.bpb.Geometry := by rwa [hxv]
    obtain ⟨ns, w, hx, hnl, hext⟩ := @Server.extendCluster_exact x fuel f last 1 (f :: fs) hgx (by rw [hxv]; omega)
      (by rwa [hxv]) (by rw [hsplit]; simp) (by rwa [hxv])
    obtain ⟨n, rfl⟩ := List.length_eq_one_iff.mp hnl
    -- the same run, for the volume it leaves
    have hends : Linked x.vol [last] := by
      have hl := hds.linked
      rw [hsplit] at hl
      rw [hxv]
      exact hl.suffix
    obtain ⟨w', hx', hvol, -⟩ := @Server.extendCluster_spec fuel 1 last x [] hgx hends
      (by rw [hxv]; exact fun x hx => hds.valid x (by rw [hsplit]; exact List.mem_append_right _ hx)) (by rwa [hxv])
      (by simp; omega) (by rw [hxv]; omega)
    rw [hx] at hx'
    obtain ⟨hn, rfl⟩ := Prod.mk.inj (Option.some.inj hx')
    have hlast : (f :: fs ++ [n]).getLastD 0 = n := by
      rw [hsplit, getLastD_append_singleton]
      rfl
    rw [hx, hlast] at hcreate
    rw [hxv] at hext hvol hn
    refine .inr ⟨last, n, w, hr, ?_, hext, hrun.trans hcreate⟩
    obtain ⟨m, ms, hms⟩ := List.exists_cons_of_length_pos hfree
    rw [hms, List.take_succ_cons, List.take_zero] at hvol hn
    obtain rfl : n = m := hlast.symm.trans hn
    exact hvol

/-- In a free slot or in a new cluster. -/
theorem createFile_links (hg : s.vol.bpb.Geometry) {path : List UInt8} {c : Nat} {name : List UInt8} {ds : List Nat}
    (hp : ParentOf s.vol path c name) (hds : IsChain s.vol c ds) (hne : ds ≠ [])
    (hroom : (∀ d, ¬ TakesSlot s.vol path d) → 0 < s.vol.free.length) :
    ∃ fuel s' r, s.createFile fuel path = some (s', r) ∧ LinksInside s.vol s'.vol := by
  obtain ⟨F, hF⟩ := createFile_runs hg hp hds hne fun fuel last hr => hroom fun d hd => by cases hd.eq hp hr
  obtain ⟨f, fs, rfl⟩ := List.exists_cons_of_ne_nil hne
  obtain rfl : f = c := hds.head
  rcases hF F (Nat.le_refl F) s rfl with ⟨e, t, hr, hv, -, hrun⟩ | ⟨last, n, t, -, hv, hext, hrun⟩
  · have hval := hds.valid _ (openSlot_opens hg hds.linked hds.valid hr).1
    refine ⟨F, _, _, hrun, fun x hx hchg => absurd ?_ hchg⟩
    rw [Server.writeEntry_vol (by rwa [hv]) (by rwa [hv]), hv]
    exact Volume.fatAt_setCluster_fat hg hx
  · have hb : t.vol.bpb = s.vol.bpb := by rw [hv, Volume.append_bpb]
    refine ⟨F, _, _, hrun, fun x hxb hchg => ?_⟩
    have hn : s.vol.bpb.Valid n := (Volume.mem_free.mp (hext.wasFree n (by simp))).1
    have hvol : ((t.clearedCluster n).writeEntry (n, 0) name).vol = t.vol.setCluster n
        (store 4 (setFileName (t.clearedCluster n).clusterBuf (32 * 0) name) (32 * 0 + 28) 0) :=
      Server.writeEntry_vol (s := t.clearedCluster n) (e := (n, 0)) (by rwa [← hb] at hg) (by rwa [← hb] at hn)
    have hfat : ((t.clearedCluster n).writeEntry (n, 0) name).vol.fatAt x = t.vol.fatAt x := by
      rw [hvol]
      exact Volume.fatAt_setCluster_fat (by rwa [hb]) (by rwa [hb])
    rw [hfat] at hchg ⊢
    exact hext.linksInside hb x hxb hchg

theorem createFile_respects (hg : s.vol.bpb.Geometry) {path : List UInt8} {c k : Nat} {name : List UInt8} {ds : List Nat}
    (hp : ParentOf s.vol path c name) (hds : IsChain s.vol c ds) (hne : ds ≠ []) (hk : NeedsClusters s.vol path k) :
    Respects s k (fun fuel => (s.createFile fuel path).map Prod.swap) (· = .error .ENOSPC) ↔ k ≤ s.vol.free.length := by
  constructor
  · rintro ⟨fuel, r, s', hrun, -, hshort⟩
    by_contra hlt
    obtain ⟨⟨t, q⟩, hq, he⟩ := Option.map_eq_some_iff.1 hrun
    obtain ⟨rfl, rfl⟩ := Prod.mk.inj he
    obtain rfl := (hshort (by omega)).1
    exact Server.createFile_never_full hg hq
  · intro hle
    obtain ⟨fuel, s', r, hrun, hlinks⟩ := createFile_links hg hp hds hne fun hnone => by
      cases hk with
      | none hd => exact absurd hd (hnone _)
      | one => exact hle
    refine ⟨fuel, r, s', ?_, hlinks, fun hlt => by omega⟩
    show (s.createFile fuel path).map Prod.swap = _
    rw [hrun]
    rfl

/-- **The bounds of an allocation.** A request respects the end of the volume exactly when there are as many free clusters
as it needs. `ExtendCluster` and `AllocateClusterChain` have no value to report a failure with; of them only the rest is
asked. -/
theorem allocation_bounds (hg : s.vol.bpb.Geometry) :
    (∀ first cs c n, IsChain s.vol first cs → c ∈ cs →
      (Respects s n (fun fuel => s.extendCluster fuel c n) (fun _ => True) ↔ n ≤ s.vol.free.length)) ∧
    (∀ n, Respects s (max n 1) (fun fuel => s.allocateClusterChain fuel n) (fun _ => True) ↔
      max n 1 ≤ s.vol.free.length) ∧
    ∀ path c name ds k, ParentOf s.vol path c name → IsChain s.vol c ds → ds ≠ [] → NeedsClusters s.vol path k →
      (Respects s k (fun fuel => (s.createFile fuel path).map Prod.swap) (· = .error .ENOSPC) ↔ k ≤ s.vol.free.length) :=
  ⟨fun _ _ _ _ h hc => extendCluster_respects hg h hc, allocateClusterChain_respects hg,
    fun _ _ _ _ _ hp hds hne hk => createFile_respects hg hp hds hne hk⟩

end Bounds

/-- One free cluster: for a chain, for a new one, and none is needed for a file in the root directory. -/
theorem allocation_twoBytes : Respects twoBytesServer 1 (fun fuel => twoBytesServer.extendCluster fuel 3 1) (fun _ => True) ∧
    ¬ Respects twoBytesServer (max 2 1) (fun fuel => twoBytesServer.allocateClusterChain fuel 2) (fun _ => True) ∧
    Respects twoBytesServer 0 (fun fuel => (twoBytesServer.createFile fuel [0x62]).map Prod.swap) (· = .error .ENOSPC) := by
  obtain ⟨hextend, halloc, hcreate⟩ := allocation_bounds (s := twoBytesServer) twoBytes_geometry
  have hslot : TakesSlot twoBytes [0x62] (2, 1) := ⟨2, [0x62], 1, .plain (by decide), by decide⟩
  refine ⟨(hextend 3 [3] 3 1 twoBytes_fileChain (by simp)).2 (by decide), fun h => ?_,
    (hcreate [0x62] 2 [0x62] [2] 0 (.plain (by decide)) twoBytes_rootChain (by simp) (.none hslot)).2 (Nat.zero_le _)⟩
  exact absurd ((halloc 2).1 h) (by decide)

/-- On a full volume `ExtendCluster` links cluster 5, which is none, behind the file's. -/
theorem extendCluster_full : fullVolume.bpb.Geometry ∧ fullServer.vol = fullVolume ∧ IsChain fullVolume 3 [3] ∧
    fullVolume.free = [] ∧ (fullServer.extendCluster 9 3 1).map (fun r => (r.1, r.2.vol.fatAt 3)) = some (5, 5) ∧
    ¬ fullVolume.bpb.Valid 5 ∧
    ¬ Respects fullServer 1 (fun fuel => fullServer.extendCluster fuel 3 1) (fun _ => True) := by
  have hchain : IsChain fullVolume 3 [3] :=
    ⟨rfl, by decide, by decide, show 0x0ffffff8 ≤ fullVolume.fatAt 3 by decide⟩
  refine ⟨twoBytes_geometry, rfl, hchain, by decide, by decide, by decide, fun h => ?_⟩
  have hle := (extendCluster_respects (s := fullServer) twoBytes_geometry hchain (by simp)).1 h
  exact absurd hle (by decide)

end KinOS.Fs
