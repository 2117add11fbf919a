import KinOS.Fs.Create
import KinOS.Fs.Growth

/-!
# What creating a file leaves of the tree

`CreateFile` takes the first slot of the directory that is deleted or an end marker, with the bytes it holds, and puts no
end marker behind it. So the volume stays well-formed when the slot holds no cluster and no directory bit (`Clean`) and
when the slot behind an end marker is one too (`Marked`); otherwise the entry comes with the clusters of another file, or
stale entries behind it come to life.

`newEntry_grows` has what the two ways of creating an entry share: in a free slot (`setSlot_grows`), and in a new cluster
behind the directory's last (`newCluster_grows`).
-/

namespace KinOS.Fs

open Bytes TransitionSystem

/-! ## The slot behind an end marker -/

/-- If the slot is an end marker, so is the one behind it. -/
def Marked (v : Volume) (e : Slot) : Prop := v.name0 e = 0 →
  if e.2 + 1 < v.bpb.entriesPerCluster then v.name0 (e.1, e.2 + 1) = 0
  else v.next e.1 = 0x0fffffff ∨ v.name0 (v.next e.1, 0) = 0

/-- The cluster behind `c` on a chain. -/
theorem Linked.next_eq {v : Volume} (hg : v.bpb.Geometry) {c d : Nat} {post : List Nat} : ∀ {pre : List Nat},
    Linked v (pre ++ c :: d :: post) → (∀ x ∈ pre ++ c :: d :: post, v.bpb.Valid x) → v.next c = d
  | [], h, hv => h.starts_next hg fun x hx => hv x (List.mem_cons_of_mem _ hx)
  | _ :: _, h, hv => next_eq hg h.tail fun x hx => hv x (List.mem_cons_of_mem _ hx)

section Slot

variable {v v' : Volume} {e d : Slot} {ds : List Nat}

/-- Slot `e` is not among those up to `d` if these hold no end marker now, and `e`'s was marked. -/
theorem Marked.behind {pre post : List Nat} (hg : v.bpb.Geometry) (hm : Marked v e) (h0 : v.name0 e = 0)
    (hl : Linked v (pre ++ d.1 :: post)) (hv : ∀ x ∈ pre ++ d.1 :: post, v.bpb.Valid x) (hn : (pre ++ d.1 :: post).Nodup)
    (hi : e.2 < v.bpb.entriesPerCluster) (hd : d.2 < v.bpb.entriesPerCluster)
    (hpre : ∀ c ∈ pre, ∀ i < v.bpb.entriesPerCluster, (c, i) ≠ e → v.name0 (c, i) ≠ 0)
    (hthis : ∀ i ≤ d.2, (d.1, i) ≠ e → v.name0 (d.1, i) ≠ 0) (hde : d ≠ e) : e.1 ∉ pre ∧ ¬ (e.1 = d.1 ∧ e.2 ≤ d.2) := by
  have hmark := hm h0
  refine ⟨fun hmem => ?_, fun ⟨h1, h2⟩ => ?_⟩
  · by_cases hlt : e.2 + 1 < v.bpb.entriesPerCluster
    · rw [if_pos hlt] at hmark
      exact hpre e.1 hmem (e.2 + 1) hlt (fun he => by have := congrArg Prod.snd he; simp at this) hmark
    · rw [if_neg hlt] at hmark
      obtain ⟨p1, p2, rfl⟩ := List.append_of_mem hmem
      -- the cluster behind `e`'s is in `pre` too, or it is `d`'s
      obtain ⟨x, rest, hx⟩ : ∃ x rest, p2 ++ d.1 :: post = x :: rest := by
        cases p2 with
        | nil => exact ⟨_, _, rfl⟩
        | cons x p2 => exact ⟨_, _, rfl⟩
      have hsplit : p1 ++ e.1 :: p2 ++ d.1 :: post = p1 ++ e.1 :: x :: rest := by
        rw [List.append_assoc, List.cons_append, hx]
      rw [hsplit] at hl hv hn
      have hnext : v.next e.1 = x := hl.next_eq hg hv
      have hxe : ∀ i, (x, i) ≠ e := by
        rintro i rfl
        exact (List.nodup_cons.mp (List.nodup_append.mp hn).2.1).1 (List.mem_cons_self ..)
      have hend := ((hv x (by simp)).ne hg).2
      rw [hnext] at hmark
      have hname := hmark.resolve_left hend
      cases p2 with
      | nil =>
        obtain ⟨rfl, -⟩ := List.cons.inj hx
        exact hthis 0 (Nat.zero_le _) (hxe 0) hname
      | cons y p2 =>
        obtain ⟨rfl, -⟩ := List.cons.inj hx
        exact hpre y (by simp) 0 (by omega) (hxe 0) hname
  · obtain ⟨c, i⟩ := d
    obtain ⟨c', k⟩ := e
    obtain rfl : c' = c := h1
    have h2 : k ≤ i := h2
    have hd : i < v.bpb.entriesPerCluster := hd
    have hlt : k < i := by
      refine Nat.lt_of_le_of_ne h2 fun hki => hde ?_
      rw [hki]
    have hmark : v.name0 (c', k + 1) = 0 := by
      simpa only [if_pos (show k + 1 < v.bpb.entriesPerCluster by omega)] using hmark
    exact hthis (k + 1) hlt (by simp) hmark

/-- A change of one slot brings no other slot to life if the slot behind an end marker is one. -/
theorem LiveIn.of_slot {first : Nat} (hg : v.bpb.Geometry) (hb : v'.bpb = v.bpb) (hc : IsChain v first ds)
    (hi : e.2 < v.bpb.entriesPerCluster) (hm : Marked v e)
    (hkept : ∀ x : Slot, x.1 ∈ ds → x.2 < v.bpb.entriesPerCluster → x ≠ e → ∀ j < 32,
      v'.cluster x.1 (32 * x.2 + j) = v.cluster x.1 (32 * x.2 + j)) (hde : d ≠ e) (h : LiveIn v' ds d) : LiveIn v ds d := by
  have hidx : d.2 < v.bpb.entriesPerCluster := hb ▸ h.index
  have hname : ∀ x : Slot, x.1 ∈ ds → x.2 < v.bpb.entriesPerCluster → x ≠ e → v'.name0 x = v.name0 x :=
    fun x hx hxi hxe => hkept x hx hxi hxe 0 (by decide)
  obtain ⟨pre, post, rfl, hpre, hthis⟩ := h.before
  have hpre' : ∀ c ∈ pre, ∀ i < v.bpb.entriesPerCluster, (c, i) ≠ e → v.name0 (c, i) ≠ 0 := by
    intro c hc i hi' hne
    rw [← hname (c, i) (List.mem_append_left _ hc) hi' hne]
    exact hpre c hc i (by rwa [hb])
  have hthis' : ∀ i ≤ d.2, (d.1, i) ≠ e → v.name0 (d.1, i) ≠ 0 := by
    intro i hi' hne
    rw [← hname (d.1, i) h.mem (by omega) hne]
    exact hthis i hi'
  -- the changed slot was no end marker, or it is not among the slots up to `d`
  have hslot : v.name0 e ≠ 0 ∨ e.1 ∉ pre ∧ ¬ (e.1 = d.1 ∧ e.2 ≤ d.2) := by
    by_cases h0 : v.name0 e = 0
    · exact .inr (hm.behind hg h0 hc.linked hc.valid hc.nodup hi hidx hpre' hthis' hde)
    · exact .inl h0
  refine ⟨hidx, ⟨pre, post, rfl, fun c hcm i hi' => ?_, fun i hi' => ?_⟩, ?_, ?_⟩
  · by_cases he : (c, i) = e
    · subst he
      exact hslot.elim id fun hs => absurd hcm hs.1
    · exact hpre' c hcm i hi' he
  · by_cases he : (d.1, i) = e
    · subst he
      exact hslot.elim id fun hs => absurd ⟨rfl, hi'⟩ hs.2
    · exact hthis' i hi' he
  · rw [← hname d h.mem hidx hde]
    exact h.name
  · have hattr : v'.attr d = v.attr d := hkept d h.mem hidx hde 11 (by decide)
    rw [← hattr]
    exact h.attr

/-! ## One new entry -/

/-- **A new entry**, in the directory of owner `o`, which may get clusters for it. -/
theorem newEntry_grows {o : Owner} {ns : List Nat} (hwf : WellFormed v) (hb : v'.bpb = v.bpb) (ho : Holder v o)
    (hds : IsChain v (v.firstOf o) ds) (hns : ∀ c ∈ ns, v.fatAt c = 0) (hchain : IsChain v' (v.firstOf o) (ds ++ ns))
    (hfat : ∀ c, v.bpb.Valid c → c ∉ ds ++ ns → v'.fatAt c = v.fatAt c)
    (hkept : ∀ x : Slot, DirCluster v x.1 → x.2 < v.bpb.entriesPerCluster → x ≠ e → ∀ j < 32,
      v'.cluster x.1 (32 * x.2 + j) = v.cluster x.1 (32 * x.2 + j)) (hdead : ¬ Live v e)
    (hlive : ∀ {o' cs d}, Holder v o' → IsChain v (v.firstOf o') cs → LiveIn v' (grown o ns o' cs) d → d ≠ e → LiveIn v cs d)
    (hnew : v'.attr e &&& 0x10 = 0 ∧ v'.first e = 0) : Grows v v' (· = e) o ns := by
  have hne : ∀ {d : Slot}, Live v d → d ≠ e := by
    rintro d hd rfl
    exact hdead hd
  have hfirst : ∀ {o' : Owner}, IsOwner v o' → v'.firstOf o' = v.firstOf o' := by
    intro o' ho'
    cases o' with
    | none => rw [Volume.firstOf, Volume.firstOf, hb]
    | some d =>
      have hl := ho' d rfl
      exact firstCluster_congr (hkept d hl.dirCluster hl.choose_spec.2.index (hne hl))
  refine ⟨hb, hns, fun {o' cs} ho' hcs => ?_, fun {d} hd => ?_, fun {o' cs d} ho' hcs hin => ?_, ?_⟩
  · rw [hfirst ho']
    by_cases heq : o' = o
    · subst heq
      obtain rfl := hcs.unique hwf.geometry hds
      rw [grown_self]
      exact hchain
    · rw [grown_other heq]
      have hapart : ∀ c ∈ cs, c ∉ ds ++ ns := by
        intro c hc hm
        rcases List.mem_append.mp hm with hm | hm
        · exact hwf.owners_apart ho' ho.isOwner heq hcs hds hc hm
        · exact hcs.linked.not_free hcs.valid c hc (hns c hm)
      exact ⟨hcs.head, by rw [hb]; exact hcs.valid, hcs.nodup,
        hcs.linked.congr fun c hc => hfat c (hcs.valid c hc) (hapart c hc)⟩
  · exact hkept d hd.dirCluster hd.choose_spec.2.index (hne hd) 11 (by decide)
  · by_cases hde : d = e
    · exact .inr hde
    · exact .inl (hlive ho' hcs hin hde)
  · rintro d rfl
    exact hnew

/-- An entry in a free slot of a directory. -/
theorem setSlot_grows {buf : Mem} (hwf : WellFormed v) (hdir : Directory v ds) (he : e.1 ∈ ds)
    (hi : e.2 < v.bpb.entriesPerCluster) (hfree : v.name0 e = 0 ∨ v.name0 e = 0xe5) (hm : Marked v e)
    (hbuf : ∀ j < v.bpb.bytesPerCluster, j < 32 * e.2 ∨ 32 * e.2 + 32 ≤ j → buf j = v.byteAt e.1 j)
    (hnew : (v.setCluster e.1 buf).attr e &&& 0x10 = 0 ∧ (v.setCluster e.1 buf).first e = 0) :
    Grows v (v.setCluster e.1 buf) (· = e) none [] := by
  have hg := hwf.geometry
  have hval : v.bpb.Valid e.1 := DirCluster.valid ⟨ds, hdir, he⟩
  have hkept : ∀ x : Slot, DirCluster v x.1 → x.2 < v.bpb.entriesPerCluster → x ≠ e → ∀ j < 32,
      (v.setCluster e.1 buf).cluster x.1 (32 * x.2 + j) = v.cluster x.1 (32 * x.2 + j) := by
    intro x hx hxi hxe j hj
    have hidx := Server.index_bound hxi
    rw [Volume.cluster_eq hg hx.valid, Volume.cluster_eq (v := v.setCluster e.1 buf) hg hx.valid]
    by_cases heq : x.1 = e.1
    · have hne : x.2 ≠ e.2 := fun h2 => hxe (Prod.ext heq h2)
      rw [heq, Volume.byteAt_setCluster_self (by omega)]
      exact hbuf _ (by omega) (by omega)
    · exact Volume.byteAt_setCluster_other hval hx.valid heq (by omega)
  obtain ⟨rs, hrs, hroot⟩ := hwf.root
  refine newEntry_grows hwf rfl holder_none hroot (by simp) ?_ (fun c hc _ => Volume.fatAt_setCluster hg hc.2)
    hkept ?_ ?_ hnew
  · rw [List.append_nil]
    exact { hroot with linked := hroot.linked.congr fun c hc => Volume.fatAt_setCluster hg (hroot.valid c hc).2 }
  · rintro ⟨ds', -, hin⟩
    obtain ⟨pre, post, -, -, hthis⟩ := hin.before
    exact hfree.elim (hthis e.2 (Nat.le_refl _)) hin.name.1
  · intro o' cs d ho' hcs hin hde
    rw [grown_nil] at hin
    exact hin.of_slot hg (Volume.setCluster_bpb ..) hcs hi hm (fun x hx => hkept x ⟨cs, ho'.directory hcs, hx⟩) hde

/-- An entry in the first slot of a new cluster behind the directory's last. -/
theorem newCluster_grows {o : Owner} {pre : List Nat} {last n : Nat} {buf : Mem} (hwf : WellFormed v) (ho : Holder v o)
    (hds : IsChain v (v.firstOf o) (pre ++ [last])) (hn : n ∈ v.free)
    (hbuf : ∀ j < v.bpb.bytesPerCluster, 32 ≤ j → buf j = 0)
    (hnew : ((v.append last [n]).setCluster n buf).attr (n, 0) &&& 0x10 = 0 ∧
      ((v.append last [n]).setCluster n buf).first (n, 0) = 0) :
    Grows v ((v.append last [n]).setCluster n buf) (· = (n, 0)) o [n] := by
  have hg := hwf.geometry
  have hB := hg.bytesPerCluster_ge
  obtain ⟨hval, hzero⟩ := Volume.mem_free.mp hn
  have hb : ((v.append last [n]).setCluster n buf).bpb = v.bpb := Volume.append_bpb ..
  have hg1 : (v.append last [n]).bpb.Geometry := by rwa [Volume.append_bpb]
  have hval1 : ∀ {c}, v.bpb.Valid c → (v.append last [n]).bpb.Valid c := fun h => by rwa [Volume.append_bpb]
  obtain ⟨hev, hsame⟩ := @Evolves.of_append NoByte v pre [n] last hg hds.self (by simp) (by simpa using hn)
  have hkept : ∀ c j, v.bpb.Valid c → c ≠ n → j < v.bpb.bytesPerCluster →
      ((v.append last [n]).setCluster n buf).cluster c j = v.cluster c j := by
    intro c j hc hne hj
    rw [Volume.cluster_eq (by rwa [hb]) (by rwa [hb]), Volume.cluster_eq hg hc,
      Volume.byteAt_setCluster_other (hval1 hval) (hval1 hc) hne (by rwa [Volume.append_bpb])]
    exact hsame c j
  -- directory clusters are in use, the new one was not
  have hdirne : ∀ {c}, DirCluster v c → c ≠ n := by
    rintro c hc rfl
    exact hc.used hzero
  have hslot : ∀ x : Slot, DirCluster v x.1 → x.2 < v.bpb.entriesPerCluster → ∀ j < 32,
      ((v.append last [n]).setCluster n buf).cluster x.1 (32 * x.2 + j) = v.cluster x.1 (32 * x.2 + j) := by
    intro x hx hxi j hj
    have hidx := Server.index_bound hxi
    exact hkept x.1 _ hx.valid (hdirne hx) (by omega)
  have hold : ∀ {o' : Owner} {cs : List Nat} {d : Slot}, Holder v o' → IsChain v (v.firstOf o') cs →
      LiveIn ((v.append last [n]).setCluster n buf) cs d → LiveIn v cs d := by
    intro o' cs d ho' hcs hin
    have hdir := ho'.directory hcs
    exact hin.of_agree hb (fun x hx hxi => hslot x ⟨cs, hdir, hx⟩ hxi 0 (by decide))
      fun x hx hxi => hslot x ⟨cs, hdir, hx⟩ hxi 11 (by decide)
  refine newEntry_grows hwf hb ho hds (by simpa using hzero) ?_ ?_ (fun x hx hxi _ => hslot x hx hxi) ?_ ?_ hnew
  · have hchain := hev.chain
    rw [List.append_cons] at hchain
    refine ⟨?_, by rw [hb]; simpa only [Volume.append_bpb] using hchain.valid, hchain.nodup,
      hchain.linked.congr fun c hc => Volume.fatAt_setCluster hg1 (hchain.valid c hc).2⟩
    rw [← hds.head]
    cases pre <;> rfl
  · intro c hc hm
    rw [Volume.fatAt_setCluster hg1 (hval1 hc).2]
    exact Volume.fatAt_append fun hmem => hm (by
      rw [← List.append_cons]
      exact List.mem_append_right _ hmem)
  · intro hlive
    exact hdirne hlive.dirCluster rfl
  · intro o' cs d ho' hcs hin hde
    by_cases heq : o' = o
    · subst heq
      obtain rfl := hcs.unique hg hds
      rw [grown_self] at hin
      obtain ⟨p, post, hsplit, hpre, hthis⟩ := hin.before
      rcases List.eq_nil_or_concat post with rfl | ⟨post', b, rfl⟩
      · -- the new cluster: its second slot is an end marker
        obtain ⟨c, i⟩ := d
        have hc : n = c := by simpa using (List.append_inj_right' hsplit rfl)
        subst hc
        have hi : i ≠ 0 := fun h0 => hde (by rw [h0])
        have hcl := hthis 1 (Nat.pos_of_ne_zero hi)
        refine absurd ?_ hcl
        rw [Volume.name0, Volume.cluster_eq (by rwa [hb]) (by rwa [hb]),
          Volume.byteAt_setCluster_self (by rw [Volume.append_bpb]; omega)]
        exact hbuf _ (by omega) (by omega)
      · have hds' : pre ++ [last] = p ++ d.1 :: post' := by
          have hcat : pre ++ [last] ++ [n] = p ++ d.1 :: post' ++ [b] := by
            rw [hsplit, List.concat_eq_append, List.append_assoc, List.cons_append]
          exact List.append_inj_left' hcat rfl
        exact hold ho hds ⟨hin.index, ⟨p, post', hds', hpre, hthis⟩, hin.name, hin.attr⟩
    · rw [grown_other heq] at hin
      exact hold ho' hcs hin

end Slot

/-! ## `CreateFile` -/

/-- Where the search for a slot ends on a directory's chain. -/
def Opens (v : Volume) (ds : List Nat) : Slot ⊕ Nat → Prop
  | .inl e => e.1 ∈ ds ∧ e.2 < v.bpb.entriesPerCluster ∧ (v.name0 e = 0 ∨ v.name0 e = 0xe5)
  | .inr last => ∃ pre, ds = pre ++ [last]

theorem openSlot_opens {v : Volume} (hg : v.bpb.Geometry) : ∀ {fuel c : Nat} {cs : List Nat} {r : Slot ⊕ Nat},
    Linked v (c :: cs) → (∀ d ∈ c :: cs, v.bpb.Valid d) → openSlot v fuel c = some r → Opens v (c :: cs) r
  | 0, _, _, _, _, _, h => by simp [openSlot] at h
  | fuel + 1, c, cs, r, hl, hv, h => by
    rw [openSlot] at h
    cases hm : freeSlot (v.cluster c) v.bpb.entriesPerCluster with
    | some i =>
      simp only [hm, Option.some.injEq] at h
      subst h
      obtain ⟨hi, hfree, -⟩ := freeSlot_some hm
      exact ⟨List.mem_cons_self .., hi, hfree⟩
    | none =>
      simp only [hm] at h
      have hnext := hl.starts_next hg fun d hd => hv d (List.mem_cons_of_mem _ hd)
      cases cs with
      | nil =>
        rw [if_pos (show v.next c = 0x0fffffff from if_pos hl), Option.some.injEq] at h
        subst h
        exact ⟨[], rfl⟩
      | cons d cs =>
        have hd : v.next c = d := hnext
        rw [if_neg (by rw [hd]; exact ((hv d (by simp)).ne hg).2), hd] at h
        have ih := openSlot_opens hg hl.2 (fun x hx => hv x (List.mem_cons_of_mem _ hx)) h
        cases r with
        | inl e => exact ⟨List.mem_cons_of_mem _ ih.1, ih.2⟩
        | inr last =>
          obtain ⟨pre, hpre⟩ := ih
          exact ⟨c :: pre, by rw [hpre, List.cons_append]⟩

theorem WellFormed.directory_ne_nil {v : Volume} (hwf : WellFormed v) {ds : List Nat} (hd : Directory v ds) : ds ≠ [] := by
  obtain ⟨o, ho, hds⟩ := hd.holder
  cases o with
  | none =>
    obtain ⟨ds', hne, hds'⟩ := hwf.root
    rwa [hds.unique hwf.geometry hds']
  | some d =>
    obtain ⟨hlive, hattr⟩ := ho d rfl
    obtain ⟨cs, hcs, hne⟩ := hwf.chains d hlive
    rw [hds.unique hwf.geometry hcs]
    exact hne hattr

/-- What `CreateFile` relies on: the path's parent is a directory, the slot it takes holds nothing that stays and comes
with an end marker behind it, and a directory without a free slot can get a cluster. -/
structure Creates (v : Volume) (path : List UInt8) : Prop where
  parent : ∀ {c name}, ParentOf v path c name → ∃ ds, Directory v ds ∧ IsChain v c ds
  clean : ∀ {d}, TakesSlot v path d → Clean v d
  marked : ∀ {d}, TakesSlot v path d → Marked v d
  room : (∀ d, ¬ TakesSlot v path d) → 0 < v.free.length

namespace Server

variable {s : Server} {e : Slot} {name : List UInt8}

theorem writeEntry_vol (hg : s.vol.bpb.Geometry) (hc : s.vol.bpb.Valid e.1) : (s.writeEntry e name).vol =
    s.vol.setCluster e.1 (store 4 (setFileName s.clusterBuf (32 * e.2) name) (32 * e.2 + 28) 0) :=
  updateCluster_vol (s := { s with
    clusterBuf := store 4 (setFileName s.clusterBuf (32 * e.2) name) (32 * e.2 + 28) 0 }) hg hc

/-- Only the slot's bytes are set. -/
theorem entryBuf_outside {m : Mem} {i j : Nat} (h : j < 32 * i ∨ 32 * i + 32 ≤ j) :
    store 4 (setFileName m (32 * i) name) (32 * i + 28) 0 j = m j := by
  rw [store_outside (by omega), setFileName, copy_outside (by omega)]

/-- **Creating a file adds one entry without clusters.** -/
theorem createFile_grows {fuel : Nat} {path : List UInt8} {s' : Server} (hwf : WellFormed s.vol) (hf : s.vol.bpb.top < fuel)
    (hc : Creates s.vol path) (h : s.createFile fuel path = some (s', .ok e)) :
    ∃ o ns, Grows s.vol s'.vol (· = e) o ns := by
  have hg := hwf.geometry
  have hnew : s'.vol.attr e &&& 0x10 = 0 ∧ s'.vol.first e = 0 := by
    have hn := (createFile_newFile hg h).2 fun d hd => hc.clean hd
    exact ⟨regular_bits hn.attr, hn.first⟩
  obtain ⟨c, name, t, hpar, hv, -, hin⟩ := createFile_ok hg h
  obtain ⟨ds, hdir, hds⟩ := hc.parent hpar
  obtain ⟨f, fs, rfl⟩ := List.exists_cons_of_ne_nil (hwf.directory_ne_nil hdir)
  obtain rfl : f = c := hds.head
  have hg' : t.vol.bpb.Geometry := by rwa [hv]
  rcases createIn_ok hg' hin with ⟨u, ho, hfound, rfl⟩ | ⟨last, u, w, ho, hu, hx, he0, rfl⟩
  · -- in a free slot
    rw [hv] at ho
    obtain ⟨hmem, hi, hfree⟩ := openSlot_opens hg hds.linked hds.valid ho
    have huv : u.vol = s.vol := hfound.vol.trans hv
    have hval := hds.valid _ hmem
    rw [writeEntry_vol (by rwa [huv]) (by rwa [huv])] at hnew ⊢
    rw [huv] at hnew ⊢
    refine ⟨none, [], setSlot_grows hwf hdir hmem hi hfree (hc.marked ⟨_, _, fuel, hpar, ho⟩) (fun j hj hout => ?_) hnew⟩
    rw [entryBuf_outside hout, hfound.loaded.byteAt (by rwa [huv]) (by rwa [huv]) (by rwa [huv]), huv]
  · -- in a new cluster
    rw [hv] at ho
    have huv : u.vol = s.vol := hu.trans hv
    obtain ⟨pre, hpre⟩ := openSlot_opens hg hds.linked hds.valid ho
    obtain ⟨o, hown, hchain⟩ := hdir.holder
    rw [hpre] at hchain
    have hroom : 0 < s.vol.free.length := hc.room fun d hd => by cases hd.eq hpar ho
    obtain ⟨n, ns, hfree⟩ := List.exists_cons_of_length_pos hroom
    have hlast : Linked s.vol [last] := hchain.linked.suffix
    obtain ⟨w', hx', hwv, -⟩ := @extendCluster_spec fuel 1 last u [] (by rwa [huv]) (by rw [huv]; exact hlast)
      (by rw [huv]; exact fun x hx => hchain.valid x (List.mem_append_right _ hx)) (by rw [huv]; exact hroom)
      (by simp; omega) (by rw [huv]; exact hf)
    rw [hx'] at hx
    obtain ⟨he1, rfl⟩ := Prod.mk.inj (Option.some.inj hx)
    rw [huv, hfree] at he1 hwv
    simp only [List.take_succ_cons, List.take_zero, List.getLastD_cons, List.getLastD_nil] at he1 hwv
    have hn : n ∈ s.vol.free := by simp [hfree]
    have hval := (Volume.mem_free.mp hn).1
    obtain ⟨c, i⟩ := e
    obtain rfl : i = 0 := he0
    obtain rfl : n = c := he1
    have hwb : w'.vol.bpb = s.vol.bpb := by rw [hwv, Volume.append_bpb]
    have hvol : ((w'.clearedCluster n).writeEntry (n, 0) name).vol = (s.vol.append last [n]).setCluster n
        (store 4 (setFileName (w'.clearedCluster n).clusterBuf (32 * 0) name) (32 * 0 + 28) 0) := by
      rw [← hwv]
      exact writeEntry_vol (s := w'.clearedCluster n) (e := (n, 0)) (by rwa [← hwb] at hg) (by rwa [← hwb] at hval)
    rw [hvol] at hnew ⊢
    refine ⟨o, [n], newCluster_grows hwf hown hchain hn (fun j hj h32 => ?_) hnew⟩
    rw [entryBuf_outside (by omega)]
    have hclear := @copy_inside (w'.readCluster n).clusterBuf (fun _ => 0) 0 0 w'.vol.bpb.bytesPerCluster j (by rwa [hwb])
    rwa [Nat.zero_add] at hclear

end Server

/-- **A created file shares no cluster.** What `CreateFile` returns is an entry of a new file exactly when the slot it takes
is clean. Under the conditions of `Creates` no chains are shared then, nor after any write messages to the file for which
there is room. -/
theorem createFile_never_crosslinks {s : Server} {path : List UInt8} (hwf : WellFormed s.vol) : ∀ fuel > s.vol.bpb.top,
    ∀ s1 e, s.createFile fuel path = some (s1, .ok e) →
      (NewFile s1.vol e ↔ ∀ d, TakesSlot s.vol path d → Clean s.vol d) ∧
      (Creates s.vol path → WellFormed s1.vol ∧
        ∀ rms : List WriteArg, (∀ rm ∈ rms, Existing s1.vol rm.filename e) → ∃ F, ∀ fuel' ≥ F,
          Throughout (Server.writeState fuel') (fun s rm => Room s.vol e rm) s1 rms →
          (exec (Server.writeState fuel') s1 rms).isSome ∧
            States (Server.writeState fuel') (fun s => WellFormed s.vol) s1 rms) := by
  intro fuel hf s1 e h
  have hnew := createFile_newFile hwf.geometry h
  refine ⟨hnew, fun hc => ?_⟩
  obtain ⟨o, ns, hgrows⟩ := Server.createFile_grows hwf hf hc h
  have hwf1 := hgrows.wellFormed hwf
  have hfirst : s1.vol.first e = 0 := (hnew.2 fun d hd => hc.clean hd).first
  have hown : IsChain s1.vol (s1.vol.first e) [] := ⟨hfirst.symm, by simp, by simp, trivial⟩
  refine ⟨hwf1, fun rms hto => ?_⟩
  obtain ⟨F, hF⟩ := messages_wellFormed hwf1 hown rms hto
  refine ⟨F, fun fuel' hf' hroom => hF fuel' hf' ⟨.refl hown.self, hfirst, Nat.zero_le _, ?_⟩ hwf1 hroom⟩
  exact fun k hk => absurd hk (Nat.not_lt_zero k)

/-! ### The file `b` beside the file `a` -/

theorem twoBytes_parentOf {c : Nat} {name : List UInt8} (h : ParentOf twoBytes [0x62] c name) : c = 2 :=
  (h.unique (.plain (by decide))).1

theorem twoBytes_takesSlot {d : Slot} (h : TakesSlot twoBytes [0x62] d) : d = (2, 1) := by
  have ho : openSlot twoBytes 1 2 = some (.inl (2, 1)) := by decide
  exact (Sum.inl.inj (h.eq (.plain (by decide)) ho)).symm

theorem twoBytes_creates : Creates twoBytes [0x62] where
  parent h := by
    rw [twoBytes_parentOf h]
    exact ⟨[2], .root twoBytes_rootChain, twoBytes_rootChain⟩
  clean h := by
    rw [twoBytes_takesSlot h]
    exact ⟨by decide, by decide⟩
  marked h := by
    rw [twoBytes_takesSlot h]
    exact fun _ => by decide
  room _ := by decide

/-- The server after it created the file `b`. -/
def createdB : Server := ((twoBytesServer.createFile 9 [0x62]).map Prod.fst).getD twoBytesServer

theorem createdB_eq : twoBytesServer.createFile 9 [0x62] = some (createdB, .ok (2, 1)) := by
  have hrun : ∃ r ∈ twoBytesServer.createFile 9 [0x62], r.2.toOption = some (2, 1) := by decide
  obtain ⟨⟨s1, r⟩, hr, he⟩ := hrun
  cases r with
  | error err => cases he
  | ok e =>
    obtain rfl : e = (2, 1) := Option.some.inj he
    rw [createdB, hr]
    rfl

theorem createdB_rootChain : IsChain createdB.vol createdB.vol.bpb.rootCluster.toNat [2] :=
  ⟨by decide, by decide, by decide, show 0x0ffffff8 ≤ createdB.vol.fatAt 2 by decide⟩

theorem createdB_existing : Existing createdB.vol [0x62] (2, 1) where
  names := ⟨[], ⟨1, ⟨2, [0x62], [], true, false⟩, by decide, by decide⟩, by simp⟩
  live := ⟨[2], .root createdB_rootChain, by decide, ⟨[], [], rfl, by simp, by decide⟩, by decide, by decide⟩
  notRoot := by decide
  regular := by decide

/-- The first message of a call that writes the bytes 7 and 8 to `b`. -/
def writeB : WriteArg :=
  ⟨[0x62], 3, #v[7, 8, 0, 0, 0, 0, 0, 0, 0, 0, 0, 0, 0, 0, 0, 0], 2, Vector.replicate 3 0, 2, 0, 0⟩

theorem writeB_room : Room createdB.vol (2, 1) writeB := by
  have hfree : createdB.vol.free.length = 1 := by decide
  have hsize : createdB.vol.bpb.bytesPerCluster = 512 := by decide
  intro own _
  rw [hfree, hsize]
  refine ⟨fun _ => by decide, fun _ => ?_⟩
  exact (by decide : writeB.offset.toNat + writeB.len.toNat ≤ 512).trans (by omega)

/-- It is created in the slot of an end marker and written to: the volume stays well-formed, and nothing is shared. -/
theorem createFile_twoBytes : ∃ s1, twoBytesServer.createFile 9 [0x62] = some (s1, .ok (2, 1)) ∧ NewFile s1.vol (2, 1) ∧
    ∃ F, ∀ fuel ≥ F, ∃ s2, s1.writeState fuel writeB = some s2 ∧ WellFormed s2.vol := by
  obtain ⟨hnew, hwrites⟩ := createFile_never_crosslinks (s := twoBytesServer) twoBytes_wellFormed 9 (by decide) _ _ createdB_eq
  refine ⟨createdB, createdB_eq, hnew.2 fun d hd => twoBytes_creates.clean hd, ?_⟩
  have hnamed : ∀ rm ∈ [writeB], Existing createdB.vol rm.filename (2, 1) := by
    intro rm hrm
    obtain rfl := List.mem_singleton.mp hrm
    exact createdB_existing
  obtain ⟨F, hF⟩ := (hwrites twoBytes_creates).2 [writeB] hnamed
  refine ⟨F, fun fuel hf => ?_⟩
  obtain ⟨hsome, hstates⟩ := hF fuel hf ⟨writeB_room, fun _ _ => trivial⟩
  obtain ⟨s2, hs2⟩ := Option.isSome_iff_exists.mp hsome
  exact ⟨s2, by simpa [exec] using hs2, hstates.last hs2⟩

/-- The volume of two bytes with a deleted entry behind `a` that names the cluster of `a`. -/
def staleSlot : Volume where
  bpb := twoBytes.bpb
  image := fun a => if a = 1056 then 0xe5 else if a = 1082 then 3 else twoBytes.image a

def staleServer : Server := { twoBytesServer with vol := staleSlot }

theorem staleSlot_liveIn {d : Slot} (h : LiveIn staleSlot [2] d) : d = (2, 0) := by
  obtain ⟨c, i⟩ := d
  obtain rfl : c = 2 := List.mem_singleton.mp h.mem
  obtain ⟨pre, post, -, -, hbefore⟩ := h.before
  rcases i with - | - | i
  · rfl
  · exact absurd (show staleSlot.name0 (2, 1) = 0xe5 by decide) h.name.1
  · exact absurd (show staleSlot.name0 (2, 2) = 0 by decide) (hbefore 2 (by simp))

/-- A deleted entry is no entry. -/
theorem staleSlot_wellFormed : WellFormed staleSlot := by
  have hfat : ∀ c, twoBytes.bpb.Valid c → staleSlot.fatAt c = twoBytes.fatAt c := by
    rintro c ⟨-, hc⟩
    have htop : twoBytes.bpb.top = 5 := by decide
    refine Bytes.load_congr fun i hi => ?_
    have haddr : twoBytes.bpb.fatAddr c + i < 1024 := by
      have : twoBytes.bpb.fatAddr c = 512 + 4 * c := rfl
      omega
    simp only [staleSlot, if_neg (show twoBytes.bpb.fatAddr c + i ≠ 1056 by omega),
      if_neg (show twoBytes.bpb.fatAddr c + i ≠ 1082 by omega)]
  have hgrows : Grows twoBytes staleSlot (fun _ => False) none [] := by
    refine ⟨rfl, by simp, fun {o' cs} ho hcs => ?_, fun {d} hd => ?_, fun {o' ds d} ho hds hin => ?_, fun h => h.elim⟩
    · rw [grown_nil]
      refine ⟨hcs.head.trans ?_, hcs.valid, hcs.nodup, hcs.linked.congr fun c hc => hfat c (hcs.valid c hc)⟩
      cases o' with
      | none => rfl
      | some d =>
        obtain rfl := twoBytes_live (ho d rfl)
        decide
    · obtain rfl := twoBytes_live hd
      decide
    · obtain ⟨ds', hdir, hentry⟩ := twoBytes_entry
      obtain rfl := twoBytes_directory hdir
      obtain rfl := twoBytes_directory (ho.directory hds)
      rw [grown_nil] at hin
      obtain rfl := staleSlot_liveIn hin
      exact .inl hentry
  exact hgrows.wellFormed twoBytes_wellFormed

/-- The server after creating `b` there. -/
def crossed : Server := ((staleServer.createFile 9 [0x62]).map Prod.fst).getD staleServer

/-- `b` comes with the cluster of `a`. -/
theorem createFile_staleSlot : WellFormed staleSlot ∧ staleServer.vol = staleSlot ∧
    staleServer.createFile 9 [0x62] = some (crossed, .ok (2, 1)) ∧ crossed.vol.first (2, 1) = 3 ∧
      ¬ NewFile crossed.vol (2, 1) ∧
    ¬ WellFormed crossed.vol := by
  have hrun : ∃ r ∈ staleServer.createFile 9 [0x62], r.2.toOption = some (2, 1) := by decide
  obtain ⟨⟨s1, r⟩, hr, he⟩ := hrun
  have hr : staleServer.createFile 9 [0x62] = some (s1, r) := hr
  have hfirst : crossed.vol.first (2, 1) = 3 := by decide
  have hroot : IsChain crossed.vol 2 [2] :=
    ⟨rfl, by decide, by decide, show 0x0ffffff8 ≤ crossed.vol.fatAt 2 by decide⟩
  have hlive : ∀ i, i = 0 ∨ i = 1 → Live crossed.vol (2, i) := by
    intro i hi
    refine ⟨[2], .root hroot, ⟨?_, ⟨[], [], rfl, by simp, fun k hk => ?_⟩, ?_, ?_⟩⟩
    · rcases hi with rfl | rfl <;> decide
    · obtain rfl | rfl : k = 0 ∨ k = 1 := by
        simp only at hk
        omega
      · exact show crossed.vol.name0 (2, 0) ≠ 0 by decide
      · exact show crossed.vol.name0 (2, 1) ≠ 0 by decide
    · rcases hi with rfl | rfl <;> decide
    · rcases hi with rfl | rfl <;> decide
  have hchain : ∀ i, i = 0 ∨ i = 1 → IsChain crossed.vol (crossed.vol.first (2, i)) [3] := by
    intro i hi
    refine ⟨?_, by decide, by decide, show 0x0ffffff8 ≤ crossed.vol.fatAt 3 by decide⟩
    rcases hi with rfl | rfl <;> decide
  refine ⟨staleSlot_wellFormed, rfl, ?_, hfirst, fun hn => ?_, fun hwf => ?_⟩
  · cases r with
    | error err => cases he
    | ok e =>
      obtain rfl : e = (2, 1) := Option.some.inj he
      rw [crossed, hr]
      rfl
  · rw [hn.first] at hfirst
    cases hfirst
  · exact hwf.apart (hlive 0 (.inl rfl)) (hlive 1 (.inr rfl)) (by decide) (hchain 0 (.inl rfl)) (hchain 1 (.inr rfl))
      (List.mem_singleton_self 3) (List.mem_singleton_self 3)

end KinOS.Fs
