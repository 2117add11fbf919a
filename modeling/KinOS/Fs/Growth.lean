import KinOS.Fs.RoundTrip
import KinOS.Lib.TransitionSystem

/-!
# How a well-formed volume may grow

A chain belongs to the root directory or to an entry. What a request of the file server leaves of the tree is always of
one kind: one owner's chain is longer by clusters that were free, and at most one entry is new, a file without clusters.
`Grows` says so of two volumes, and `Grows.wellFormed` that no chains are shared afterwards if none were before.

A write message is of this kind (`Written.grows`), so any number of them keep the volume well-formed
(`messages_wellFormed`).
-/

namespace KinOS.Fs

open TransitionSystem

/-! ## A chain is determined by its first cluster -/

theorem Linked.unique {v : Volume} (hg : v.bpb.Geometry) : ∀ {c : Nat} {cs cs' : List Nat}, Linked v (c :: cs) →
    Linked v (c :: cs') → (∀ d ∈ cs, v.bpb.Valid d) → (∀ d ∈ cs', v.bpb.Valid d) → cs = cs'
  | _, [], [], _, _, _, _ => rfl
  | c, [], d :: _, h, h', _, hv' => by
    have hend : 0x0ffffff8 ≤ v.fatAt c := h
    have hd := (hv' d (List.mem_cons_self ..)).2
    have hm := hg.marks
    rw [h'.1] at hend
    omega
  | c, d :: _, [], h, h', hv, _ => by
    have hend : 0x0ffffff8 ≤ v.fatAt c := h'
    have hd := (hv d (List.mem_cons_self ..)).2
    have hm := hg.marks
    rw [h.1] at hend
    omega
  | c, d :: cs, d' :: cs', h, h', hv, hv' => by
    obtain rfl : d = d' := h.1.symm.trans h'.1
    rw [h.2.unique hg h'.2 (fun x hx => hv x (List.mem_cons_of_mem _ hx)) fun x hx => hv' x (List.mem_cons_of_mem _ hx)]

theorem IsChain.unique {v : Volume} {first : Nat} (hg : v.bpb.Geometry) : ∀ {cs cs' : List Nat}, IsChain v first cs →
    IsChain v first cs' → cs = cs'
  | [], [], _, _ => rfl
  | [], c :: _, h, h' => by
    have hc := (h'.valid c (List.mem_cons_self ..)).1
    have h0 : c = 0 := h'.head.trans h.head.symm
    omega
  | c :: _, [], h, h' => by
    have hc := (h.valid c (List.mem_cons_self ..)).1
    have h0 : c = 0 := h.head.trans h'.head.symm
    omega
  | c :: cs, c' :: cs', h, h' => by
    obtain rfl : c = c' := h.head.trans h'.head.symm
    rw [h.linked.unique hg h'.linked (fun x hx => h.valid x (List.mem_cons_of_mem _ hx)) fun x hx =>
      h'.valid x (List.mem_cons_of_mem _ hx)]

/-! ## Owners of chains -/

/-- The root directory, or an entry. -/
abbrev Owner := Option Slot

def Volume.firstOf (v : Volume) : Owner → Nat
  | none => v.bpb.rootCluster.toNat
  | some e => v.first e

def IsOwner (v : Volume) (o : Owner) : Prop := ∀ e, o = some e → Live v e

/-- The owner is a directory. -/
def Holder (v : Volume) (o : Owner) : Prop := ∀ e, o = some e → Live v e ∧ v.attr e &&& 0x10 ≠ 0

section Owners

variable {v : Volume} {o o' : Owner} {ds cs : List Nat}

theorem Holder.isOwner (h : Holder v o) : IsOwner v o := fun e he => (h e he).1

theorem isOwner_none : IsOwner v none := by
  intro e he
  cases he

theorem holder_none : Holder v none := by
  intro e he
  cases he

theorem isOwner_some {e : Slot} (h : Live v e) : IsOwner v (some e) := by
  intro _ he
  obtain rfl := Option.some.inj he
  exact h

theorem Directory.holder : Directory v ds → ∃ o, Holder v o ∧ IsChain v (v.firstOf o) ds
  | .root h => ⟨none, holder_none, h⟩
  | .sub (d := d) hdir hin hattr h => by
    refine ⟨some d, fun e he => ?_, h⟩
    obtain rfl := Option.some.inj he
    exact ⟨⟨_, hdir, hin⟩, hattr⟩

theorem Holder.directory (h : Holder v o) (hc : IsChain v (v.firstOf o) ds) : Directory v ds := by
  cases o with
  | none => exact .root hc
  | some e =>
    obtain ⟨⟨ds', hdir, hin⟩, hattr⟩ := h e rfl
    exact .sub hdir hin hattr hc

theorem WellFormed.owner_chain (hwf : WellFormed v) (ho : IsOwner v o) : ∃ cs, IsChain v (v.firstOf o) cs := by
  cases o with
  | none =>
    obtain ⟨ds, -, h⟩ := hwf.root
    exact ⟨ds, h⟩
  | some e =>
    obtain ⟨cs, h, -⟩ := hwf.chains e (ho e rfl)
    exact ⟨cs, h⟩

theorem WellFormed.owners_apart (hwf : WellFormed v) (ho : IsOwner v o) (ho' : IsOwner v o') (hne : o ≠ o')
    (h : IsChain v (v.firstOf o) ds) (h' : IsChain v (v.firstOf o') cs) : ds.Disjoint cs := by
  cases o with
  | none =>
    cases o' with
    | none => exact absurd rfl hne
    | some e => exact hwf.rootApart (ho' e rfl) h h'
  | some e =>
    cases o' with
    | none => exact fun c hc hd => hwf.rootApart (ho e rfl) h' h hd hc
    | some e' => exact hwf.apart (ho e rfl) (ho' e' rfl) (fun he => hne (congrArg some he)) h h'

end Owners

/-! ## Growing -/

/-- The chain of `o'` when `o` has got the clusters `ns`. -/
def grown (o : Owner) (ns : List Nat) (o' : Owner) (cs : List Nat) : List Nat := if o' = o then cs ++ ns else cs

theorem grown_self {o : Owner} {ns cs : List Nat} : grown o ns o cs = cs ++ ns := if_pos rfl

theorem grown_other {o o' : Owner} {ns cs : List Nat} (h : o' ≠ o) : grown o ns o' cs = cs := if_neg h

theorem grown_nil {o o' : Owner} {cs : List Nat} : grown o [] o' cs = cs := by
  simp [grown]

theorem grown_disjoint {o o1 o2 : Owner} {ns c1 c2 : List Nat} (hne : o1 ≠ o2) (h : c1.Disjoint c2)
    (h1 : ∀ c ∈ ns, c ∉ c1) (h2 : ∀ c ∈ ns, c ∉ c2) : (grown o ns o1 c1).Disjoint (grown o ns o2 c2) := by
  intro c hc1 hc2
  by_cases ho1 : o1 = o
  · subst ho1
    rw [grown_self, List.mem_append] at hc1
    rw [grown_other (Ne.symm hne)] at hc2
    exact hc1.elim (fun hc => h hc hc2) fun hc => h2 c hc hc2
  · rw [grown_other ho1] at hc1
    by_cases ho2 : o2 = o
    · subst ho2
      rw [grown_self, List.mem_append] at hc2
      exact hc2.elim (fun hc => h hc1 hc) fun hc => h1 c hc hc1
    · rw [grown_other ho2] at hc2
      exact h hc1 hc2

/-- Owner `o` has got the clusters `ns`, which were free; the entries of `new` have appeared, files without clusters. -/
structure Grows (v v' : Volume) (new : Slot → Prop) (o : Owner) (ns : List Nat) : Prop where
  bpb : v'.bpb = v.bpb
  free : ∀ c ∈ ns, v.fatAt c = 0
  chain : ∀ {p cs}, IsOwner v p → IsChain v (v.firstOf p) cs → IsChain v' (v'.firstOf p) (grown o ns p cs)
  attr : ∀ {d}, Live v d → v'.attr d = v.attr d
  live : ∀ {o' ds d}, Holder v o' → IsChain v (v.firstOf o') ds → LiveIn v' (grown o ns o' ds) d → LiveIn v ds d ∨ new d
  newFile : ∀ {d}, new d → v'.attr d &&& 0x10 = 0 ∧ v'.first d = 0

namespace Grows

variable {v v' : Volume} {new : Slot → Prop} {o : Owner} {ns : List Nat}

theorem geometry (h : Grows v v' new o ns) (hwf : WellFormed v) : v'.bpb.Geometry := by
  rw [h.bpb]
  exact hwf.geometry

/-- An owner's chain afterwards is its old one, grown. -/
theorem chain_eq (h : Grows v v' new o ns) (hwf : WellFormed v) {p : Owner} {cs' : List Nat} (ho : IsOwner v p)
    (hc : IsChain v' (v'.firstOf p) cs') : ∃ cs, IsChain v (v.firstOf p) cs ∧ cs' = grown o ns p cs := by
  obtain ⟨cs, hcs⟩ := hwf.owner_chain ho
  exact ⟨cs, hcs, hc.unique (h.geometry hwf) (h.chain ho hcs)⟩

/-- A new entry is no directory, so every directory was one before. -/
theorem directory (h : Grows v v' new o ns) (hwf : WellFormed v) {ds' : List Nat} (hd : Directory v' ds') :
    ∃ o' ds, Holder v o' ∧ IsChain v (v.firstOf o') ds ∧ ds' = grown o ns o' ds := by
  induction hd with
  | root hc =>
    obtain ⟨ds, hds, rfl⟩ := h.chain_eq (p := none) hwf isOwner_none hc
    exact ⟨none, ds, holder_none, hds, rfl⟩
  | @sub _ cs d _ hin hattr hc ih =>
    obtain ⟨o', ds, hh, hds, rfl⟩ := ih
    rcases h.live hh hds hin with hin | hn
    · have hlive : Live v d := ⟨ds, hh.directory hds, hin⟩
      obtain ⟨cs, hcs, rfl⟩ := h.chain_eq (p := some d) hwf (isOwner_some hlive) hc
      refine ⟨some d, cs, fun e he => ?_, hcs, rfl⟩
      obtain rfl := Option.some.inj he
      rw [h.attr hlive] at hattr
      exact ⟨hlive, hattr⟩
    · exact absurd (h.newFile hn).1 hattr

theorem live_or_new (h : Grows v v' new o ns) (hwf : WellFormed v) {d : Slot} : Live v' d → Live v d ∨ new d
  | ⟨ds', hdir, hin⟩ => by
    obtain ⟨o', ds, hh, hds, rfl⟩ := h.directory hwf hdir
    exact (h.live hh hds hin).imp_left fun hin => ⟨ds, hh.directory hds, hin⟩

/-- A new entry has no cluster. -/
theorem chain_new (h : Grows v v' new o ns) (hwf : WellFormed v) {d : Slot} {cs : List Nat} (hn : new d)
    (hc : IsChain v' (v'.first d) cs) : cs = [] := by
  rw [(h.newFile hn).2] at hc
  exact hc.unique (h.geometry hwf) ⟨rfl, by simp, by simp, trivial⟩

/-- Chains of different owners stay apart: what was added was free. -/
theorem apart (h : Grows v v' new o ns) (hwf : WellFormed v) {p q : Owner} {c1 c2 : List Nat} (h1 : IsOwner v p)
    (h2 : IsOwner v q) (hne : p ≠ q) (hc1 : IsChain v' (v'.firstOf p) c1) (hc2 : IsChain v' (v'.firstOf q) c2) :
    c1.Disjoint c2 := by
  obtain ⟨b1, hb1, rfl⟩ := h.chain_eq hwf h1 hc1
  obtain ⟨b2, hb2, rfl⟩ := h.chain_eq hwf h2 hc2
  exact grown_disjoint hne (hwf.owners_apart h1 h2 hne hb1 hb2)
    (fun c hc hm => hb1.linked.not_free hb1.valid c hm (h.free c hc))
    fun c hc hm => hb2.linked.not_free hb2.valid c hm (h.free c hc)

/-- **No chains are shared afterwards.** -/
theorem wellFormed (h : Grows v v' new o ns) (hwf : WellFormed v) : WellFormed v' where
  geometry := h.geometry hwf
  root := by
    obtain ⟨ds, hne, hds⟩ := hwf.root
    refine ⟨_, ?_, h.chain (p := none) isOwner_none hds⟩
    unfold grown
    split
    · exact List.append_ne_nil_of_left_ne_nil hne _
    · exact hne
  chains e he := by
    rcases h.live_or_new hwf he with hl | hn
    · obtain ⟨cs, hcs, hne⟩ := hwf.chains e hl
      refine ⟨_, h.chain (p := some e) (isOwner_some hl) hcs, fun hd => ?_⟩
      rw [h.attr hl] at hd
      unfold grown
      split
      · exact List.append_ne_nil_of_left_ne_nil (hne hd) _
      · exact hne hd
    · obtain ⟨hattr, hfirst⟩ := h.newFile hn
      exact ⟨[], ⟨hfirst.symm, by simp, by simp, trivial⟩, fun hd => absurd hattr hd⟩
  rootApart {e ds cs} he hr hc := by
    rcases h.live_or_new hwf he with hl | hn
    · exact h.apart (p := none) (q := some e) hwf isOwner_none (isOwner_some hl) (by simp) hr hc
    · rw [h.chain_new hwf hn hc]
      exact List.disjoint_nil_right _
  apart {e e' cs cs'} he he' hne hc hc' := by
    rcases h.live_or_new hwf he with hl | hn
    · rcases h.live_or_new hwf he' with hl' | hn'
      · exact h.apart (p := some e) (q := some e') hwf (isOwner_some hl) (isOwner_some hl') (by simpa using hne) hc hc'
      · rw [h.chain_new hwf hn' hc']
        exact List.disjoint_nil_right _
    · rw [h.chain_new hwf hn hc]
      exact List.disjoint_nil_left _

end Grows

/-! ## A write message -/

/-- Directories that agree on the names and attributes in their slots have the same live entries. -/
theorem LiveIn.of_agree {v v' : Volume} {ds : List Nat} {d : Slot} (hb : v'.bpb = v.bpb)
    (hname : ∀ x : Slot, x.1 ∈ ds → x.2 < v.bpb.entriesPerCluster → v'.name0 x = v.name0 x)
    (hattr : ∀ x : Slot, x.1 ∈ ds → x.2 < v.bpb.entriesPerCluster → v'.attr x = v.attr x) (h : LiveIn v' ds d) :
    LiveIn v ds d := by
  have hidx : d.2 < v.bpb.entriesPerCluster := hb ▸ h.index
  obtain ⟨pre, post, hds, hpre, hbefore⟩ := h.before
  refine ⟨hidx, ⟨pre, post, hds, fun c hc i hi => ?_, fun i hi => ?_⟩, ?_, ?_⟩
  · rw [← hname (c, i) (hds ▸ List.mem_append_left _ hc) hi]
    exact hpre c hc i (by rwa [hb])
  · rw [← hname (d.1, i) h.mem (by omega)]
    exact hbefore i hi
  · rw [← hname d h.mem hidx]
    exact h.name
  · rw [← hattr d h.mem hidx]
    exact h.attr

section Write

variable {v0 v : Volume} {path : List UInt8} {e : Slot} {own0 own : List Nat}

/-- What is not in a cluster or size field of the file's entry stays, in every slot of a directory. -/
theorem Written.slot_kept (h : Tree v0 path e own0) (hw : Written v0 v e own0 own []) {x : Slot} (hx : DirCluster v0 x.1)
    (hi : x.2 < v0.bpb.entriesPerCluster) {j : Nat} (hj : j < 20) :
    v.cluster x.1 (32 * x.2 + j) = v0.cluster x.1 (32 * x.2 + j) := by
  have hb := hw.evolves.bpb
  have hidx := Server.index_bound hi
  rw [Volume.cluster_eq (hw.geometry h) (by rw [hb]; exact hx.valid), Volume.cluster_eq h.wf.geometry hx.valid]
  refine hw.evolves.bytes _ _ hx.valid (by omega) (h.dir_stays_apart hw.evolves hx) ?_
  unfold EntryField
  omega

/-- **Write messages to one file grow its chain.** -/
theorem Written.grows (h : Tree v0 path e own0) (hw : Written v0 v e own0 own []) :
    ∃ ns, own = own0 ++ ns ∧ Grows v0 v (fun _ => False) (some e) ns := by
  obtain ⟨ns, rfl, hfree⟩ := hw.evolves.ext
  have hb := hw.evolves.bpb
  have hslot : ∀ {ds : List Nat}, Directory v0 ds → ∀ x : Slot, x.1 ∈ ds → x.2 < v0.bpb.entriesPerCluster →
      ∀ j < 20, v.cluster x.1 (32 * x.2 + j) = v0.cluster x.1 (32 * x.2 + j) :=
    fun hdir x hx hi j hj => hw.slot_kept h ⟨_, hdir, hx⟩ hi hj
  refine ⟨ns, rfl, ⟨hb, hfree, fun {o' cs} ho hcs => ?_, fun {d} hd => ?_, fun {o' ds d} hh hds hin => ?_, fun h => h.elim⟩⟩
  · cases o' with
    | none =>
      rw [grown_other (by simp)]
      have hapart : ∀ c ∈ cs, c ∉ own0 ++ ns := fun c hc => h.dir_stays_apart hw.evolves ⟨cs, .root hcs, hc⟩
      exact ⟨by rw [Volume.firstOf, hb]; exact hcs.head, by rw [hb]; exact hcs.valid, hcs.nodup,
        hcs.linked.congr fun c hc => hw.evolves.fat c (hcs.valid c hc) (hapart c hc)⟩
    | some d =>
      by_cases hde : d = e
      · subst hde
        obtain rfl := hcs.unique h.wf.geometry h.chain
        rw [grown_self, Volume.firstOf, hw.first]
        exact hw.evolves.chain
      · rw [grown_other (by simpa using hde)]
        exact (hw.other_chain h (ho d rfl) hde hcs).1
  · obtain ⟨ds, hdir, hin⟩ := hd
    exact hslot hdir d hin.mem hin.index 11 (by decide)
  · have hne : o' ≠ some e := by
      rintro rfl
      exact (hh e rfl).2 (regular_bits h.file.regular)
    rw [grown_other hne] at hin
    have hdir := hh.directory hds
    exact .inl (hin.of_agree hb (fun x hx hi => hslot hdir x hx hi 0 (by decide))
      fun x hx hi => hslot hdir x hx hi 11 (by decide))

/-- What a message asks for is there: a chain for a file without one, and clusters for the bytes up to its end. -/
def Room (v : Volume) (e : Slot) (rm : WriteArg) : Prop := ∀ own, IsChain v (v.first e) own →
  (own = [] → 0 < v.free.length ∧ rm.count.toNat ≤ v.bpb.bytesPerCluster * v.free.length) ∧
    (rm.len ≠ 0 → rm.offset.toNat + rm.len.toNat ≤ v.bpb.bytesPerCluster * (v.free.length + own.length))

/-- **One message**: it is handled if there is room for it. -/
theorem Written.message (h : Tree v0 path e own0) : ∃ F, ∀ fuel ≥ F, ∀ {s : Server} {own : List Nat} {rm : WriteArg},
    Written v0 s.vol e own0 own [] → rm.filename = path → Room s.vol e rm →
    ∃ s' own', s.writeState fuel rm = some s' ∧ Written v0 s'.vol e own0 own' [] := by
  obtain ⟨F, hF⟩ := Written.target h
  refine ⟨max F (v0.bpb.top + 3), fun fuel hf {s own rm} hw hname hroom => ?_⟩
  have hg := hw.geometry h
  have hb := hw.evolves.bpb
  have ht : Server.Target s.vol F rm.filename e own := hname ▸ hF hw
  obtain ⟨hnew, hdata⟩ := hroom own ht.chain
  -- the bytes written do not matter here
  have hkeep : ∀ {s' : Server} {own' : List Nat}, Evolves (EntryField e) s.vol s'.vol own own' →
      s'.vol.first e = own'.headD 0 → Written v0 s'.vol e own0 own' [] := fun hev hfirst =>
    ⟨hw.evolves.trans hev, hfirst, Nat.zero_le _, fun k hk => absurd hk (Nat.not_lt_zero k)⟩
  by_cases hlen : rm.len = 0
  · by_cases hown : own = []
    · subst hown
      obtain ⟨hpos, hcount⟩ := hnew rfl
      obtain ⟨s', own', hs, hev, hfirst, -⟩ := @Server.writeState_finish_new s F fuel _ _ hg ht hlen hpos hcount (by omega)
        (by rw [hb]; omega)
      exact ⟨s', own', hs, hkeep hev hfirst⟩
    · obtain ⟨s', hs, hev, hfirst, -⟩ := @Server.writeState_finish s F fuel _ _ _ hg ht hown hlen (by omega)
      exact ⟨s', own, hs, hkeep hev hfirst⟩
  · have hpos : rm.len.toNat ≠ 0 := fun h0 => hlen (UInt8.toNat_inj.mp h0)
    obtain ⟨s', own', hs, hev, hfirst, -⟩ := @Server.writeState_data s F fuel _ _ _ _ hg ht rfl (by omega) (hdata hlen)
      (fun hown => (hnew hown).2) (by omega) (by rw [hb]; omega) (by omega)
    exact ⟨s', own', hs, hkeep hev hfirst⟩

/-- **Any number of messages**: if there is room for each that the server comes to, it handles them all, and no chains are
shared at any point. -/
theorem messages_wellFormed {v0 : Volume} {e : Slot} {own0 : List Nat} (hwf : WellFormed v0)
    (hown : IsChain v0 (v0.first e) own0) : ∀ rms : List WriteArg, (∀ rm ∈ rms, Existing v0 rm.filename e) →
    ∃ F, ∀ fuel ≥ F, ∀ {s : Server} {own : List Nat}, Written v0 s.vol e own0 own [] → WellFormed s.vol →
      Throughout (Server.writeState fuel) (fun s rm => Room s.vol e rm) s rms →
      (exec (Server.writeState fuel) s rms).isSome ∧ States (Server.writeState fuel) (fun s => WellFormed s.vol) s rms
  | [], _ => ⟨0, fun _ _ _ _ _ hs _ => ⟨rfl, hs⟩⟩
  | rm :: rms, hto => by
    obtain ⟨hrm, hrms⟩ := List.forall_mem_cons.mp hto
    have htree : Tree v0 rm.filename e own0 := ⟨hwf, hrm, hown⟩
    obtain ⟨F1, hF1⟩ := Written.message htree
    obtain ⟨F2, hF2⟩ := messages_wellFormed hwf hown rms hrms
    refine ⟨max F1 F2, fun fuel hf {s own} hw hs hroom => ?_⟩
    obtain ⟨s1, own1, hrun, hw1⟩ := hF1 fuel (by omega) hw rfl hroom.1
    obtain ⟨ns, -, hgrows⟩ := hw1.grows htree
    obtain ⟨hexec, hstates⟩ := hF2 fuel (by omega) hw1 (hgrows.wellFormed hwf) (hroom.2 s1 hrun)
    refine ⟨?_, hs, fun s' hs' => ?_⟩
    · rw [exec, hrun]
      exact hexec
    · obtain rfl := Option.some.inj (hrun.symm.trans hs')
      exact hstates

end Write

end KinOS.Fs
