import KinOS.Fs.WriteSpec

/-!
# The directory tree, and what a write leaves of it

`Directory` is the chain of a directory that can be reached from the root through live entries, `Live` a slot that holds
a live entry of such a directory: one before the end marker that is not deleted, not one of the dot entries and
neither a long name nor a volume label. On a well-formed volume the chains of live entries are disjoint.

Directory clusters are in use and belong to no file, so a write on behalf of one file finds every path as before
(`lookup_agree`, `Tree.lookup_eq`).
-/

namespace KinOS.Fs

open Bytes

/-! ## Well-formed volumes -/

/-- The first byte of the name in a slot: 0 is the end marker, `0xe5` a deleted entry. -/
def Volume.name0 (v : Volume) (e : Slot) : UInt8 := v.cluster e.1 (32 * e.2)

/-- Slot `e` of the directory with chain `ds` holds a live entry. -/
structure LiveIn (v : Volume) (ds : List Nat) (e : Slot) : Prop where
  index : e.2 < v.bpb.entriesPerCluster
  before : ∃ pre post, ds = pre ++ e.1 :: post ∧ (∀ c ∈ pre, ∀ i < v.bpb.entriesPerCluster, v.name0 (c, i) ≠ 0) ∧
    ∀ i ≤ e.2, v.name0 (e.1, i) ≠ 0
  name : v.name0 e ≠ 0xe5 ∧ v.name0 e ≠ 0x2e
  attr : v.attr e &&& 0x08 = 0

/-- The chains of the directories of the tree. -/
inductive Directory (v : Volume) : List Nat → Prop
  | root {ds : List Nat} : IsChain v v.bpb.rootCluster.toNat ds → Directory v ds
  | sub {ds cs : List Nat} {d : Slot} : Directory v ds → LiveIn v ds d → v.attr d &&& 0x10 ≠ 0 →
      IsChain v (v.first d) cs → Directory v cs

def Live (v : Volume) (e : Slot) : Prop := ∃ ds, Directory v ds ∧ LiveIn v ds e

/-- Every live entry has a chain, directories a nonempty one, and no two chains share a cluster. -/
structure WellFormed (v : Volume) : Prop where
  geometry : v.bpb.Geometry
  root : ∃ ds, ds ≠ [] ∧ IsChain v v.bpb.rootCluster.toNat ds
  chains : ∀ e, Live v e → ∃ cs, IsChain v (v.first e) cs ∧ (v.attr e &&& 0x10 ≠ 0 → cs ≠ [])
  rootApart : ∀ {e ds cs}, Live v e → IsChain v v.bpb.rootCluster.toNat ds → IsChain v (v.first e) cs → ds.Disjoint cs
  apart : ∀ {e e' cs cs'}, Live v e → Live v e' → e ≠ e' → IsChain v (v.first e) cs → IsChain v (v.first e') cs' →
    cs.Disjoint cs'

/-- `path` names the existing regular file at slot `e`: the search for it goes through live directories to a live
entry that is neither a directory nor a volume label. -/
structure Existing (v : Volume) (path : List UInt8) (e : Slot) : Prop where
  names : ∃ ds, v.Names path ds e ∧ ∀ d ∈ ds, Live v d
  live : Live v e
  notRoot : path ≠ [0x2f]
  regular : v.attr e &&& 0x18 = 0

/-! ## Directory clusters -/

theorem LiveIn.mem {v : Volume} {ds : List Nat} {e : Slot} (h : LiveIn v ds e) : e.1 ∈ ds := by
  obtain ⟨pre, post, rfl, -⟩ := h.before
  simp

theorem Directory.isChain {v : Volume} {ds : List Nat} : Directory v ds → ∃ first, IsChain v first ds
  | .root h => ⟨_, h⟩
  | .sub _ _ _ h => ⟨_, h⟩

theorem IsChain.length_le {v : Volume} {first : Nat} {cs : List Nat} (h : IsChain v first cs) : cs.length ≤ v.bpb.top := by
  have hsub : cs ⊆ List.range v.bpb.top := fun c hc => List.mem_range.mpr (h.valid c hc).2
  have hle := List.Nodup.length_le_of_subset h.nodup hsub
  rwa [List.length_range] at hle

/-- A cluster of a directory. -/
def DirCluster (v : Volume) (c : Nat) : Prop := ∃ ds, Directory v ds ∧ c ∈ ds

theorem DirCluster.valid {v : Volume} {c : Nat} (h : DirCluster v c) : v.bpb.Valid c := by
  obtain ⟨ds, hd, hc⟩ := h
  obtain ⟨first, hchain⟩ := hd.isChain
  exact hchain.valid c hc

theorem DirCluster.used {v : Volume} {c : Nat} (h : DirCluster v c) : v.fatAt c ≠ 0 := by
  obtain ⟨ds, hd, hc⟩ := h
  obtain ⟨first, hchain⟩ := hd.isChain
  exact hchain.linked.not_free hchain.valid c hc

theorem Live.dirCluster {v : Volume} {e : Slot} : Live v e → DirCluster v e.1
  | ⟨ds, hd, hin⟩ => ⟨ds, hd, hin.mem⟩

/-- The cluster after one of a chain is one of the chain, unless it is the end. -/
theorem Linked.next_mem {v : Volume} (hg : v.bpb.Geometry) : ∀ {cs : List Nat}, Linked v cs →
    (∀ c ∈ cs, v.bpb.Valid c) → ∀ c ∈ cs, v.next c ∈ cs ∨ v.next c = 0x0fffffff
  | [c], h, _, x, hx => by
    obtain rfl := List.mem_singleton.mp hx
    exact .inr (if_pos h)
  | c :: d :: cs, h, hv, x, hx => by
    have hvs : ∀ y ∈ d :: cs, v.bpb.Valid y := fun y hy => hv y (List.mem_cons_of_mem _ hy)
    rcases List.mem_cons.mp hx with rfl | hx
    · have hn : v.next x = d := h.starts_next hg hvs
      exact .inl (by simp [hn])
    · exact (next_mem hg h.2 hvs x hx).imp_left (List.mem_cons_of_mem _)

theorem DirCluster.next {v : Volume} (hg : v.bpb.Geometry) {c : Nat} :
    DirCluster v c → DirCluster v (v.next c) ∨ v.next c = 0x0fffffff
  | ⟨ds, hd, hc⟩ => by
    obtain ⟨first, hchain⟩ := hd.isChain
    exact (hchain.linked.next_mem hg hchain.valid c hc).imp_left fun hm => ⟨ds, hd, hm⟩

theorem headD_mem {cs : List Nat} (h : cs ≠ []) : cs.headD 0 ∈ cs := by
  obtain ⟨c, cs, rfl⟩ := List.exists_cons_of_ne_nil h
  simp

theorem WellFormed.root_dirCluster {v : Volume} (hwf : WellFormed v) : DirCluster v v.bpb.rootCluster.toNat := by
  obtain ⟨ds, hne, hchain⟩ := hwf.root
  exact ⟨ds, .root hchain, hchain.head ▸ headD_mem hne⟩

theorem kDirectory_bit {a : UInt8} (h : a = kDirectory) : a &&& 0x10 ≠ 0 := by
  subst h
  decide

theorem WellFormed.first_dirCluster {v : Volume} (hwf : WellFormed v) {d : Slot} (hd : Live v d)
    (hattr : v.attr d &&& 0x10 ≠ 0) : DirCluster v (v.first d) := by
  obtain ⟨cs, hchain, hne⟩ := hwf.chains d hd
  obtain ⟨ds, hdir, hin⟩ := hd
  exact ⟨cs, .sub hdir hin hattr hchain, hchain.head ▸ headD_mem (hne hattr)⟩

/-- No directory shares a cluster with a file that is no directory. -/
theorem WellFormed.dir_apart {v : Volume} (hwf : WellFormed v) {e : Slot} {own : List Nat} (he : Live v e)
    (hattr : v.attr e &&& 0x10 = 0) (hown : IsChain v (v.first e) own) {c : Nat} : DirCluster v c → c ∉ own
  | ⟨ds, .root hr, hc⟩ => hwf.rootApart he hr hown hc
  | ⟨ds, .sub (d := d) hdir hin hd hchain, hc⟩ => by
    refine hwf.apart ⟨_, hdir, hin⟩ he ?_ hchain hown hc
    rintro rfl
    exact hd hattr

/-! ## Searches on two volumes -/

theorem findStart_dir {b : BPB} {path : List UInt8} {dir : Nat} {cur : Cursor} (h : findStart b path dir = some cur) :
    cur.dir = b.rootCluster.toNat ∨ dir ≠ 0 ∧ cur.dir = dir := by
  unfold findStart at h
  split at h
  rename_i dir' path' hsplit
  split at h
  rename_i elem next hnext
  split at h
  · cases h
  obtain rfl := Option.some.inj h
  split at hsplit
  · obtain ⟨rfl, -⟩ := Prod.mk.inj hsplit
    exact .inl rfl
  · obtain ⟨rfl, -⟩ := Prod.mk.inj hsplit
    by_cases h0 : dir = 0
    · exact .inl (if_pos h0)
    · exact .inr ⟨h0, if_neg h0⟩

/-- **A search sees only directories.** If two volumes agree on the directory clusters, apart from the cluster and size
fields of one entry that is no directory, a search finds the same slot on both. -/
theorem lookup_agree {v v' : Volume} {D : Nat → Prop} {e : Slot} (hg : v.bpb.Geometry) (hb : v'.bpb = v.bpb)
    (hvalid : ∀ c, D c → v.bpb.Valid c) (hfat : ∀ c, D c → v'.fatAt c = v.fatAt c)
    (hbytes : ∀ c, D c → ∀ j < v.bpb.bytesPerCluster, ¬ EntryField e c j → v'.byteAt c j = v.byteAt c j)
    (hnext : ∀ c, D c → D (v.next c) ∨ v.next c = 0x0fffffff) (hroot : D v.bpb.rootCluster.toNat)
    (hattr : v.attr e ≠ kDirectory) : ∀ (fuel : Nat) {cur : Cursor} {ds : List Slot} {r : Option Slot},
      lookup v fuel cur = some (ds, r) → D cur.dir ∨ cur.dir = 0x0fffffff → (∀ d ∈ ds, D (v.first d)) →
      lookup v' fuel cur = some (ds, r)
  | 0, _, _, _, h, _, _ => by simp [lookup] at h
  | fuel + 1, cur, ds, r, h, hcur, hds => by
    rw [lookup] at h ⊢
    by_cases hend : cur.dir = 0x0fffffff
    · rwa [if_pos hend] at h ⊢
    have hc := hcur.resolve_right hend
    -- the bytes of an entry other than the excepted fields
    have hsame : ∀ i < v.bpb.entriesPerCluster, ∀ j < 32, ¬ EntryField e cur.dir (32 * i + j) →
        v'.cluster cur.dir (32 * i + j) = v.cluster cur.dir (32 * i + j) := by
      intro i hi j hj hP
      have := Server.index_bound hi
      rw [Volume.cluster_eq (by rwa [hb]) (by rw [hb]; exact hvalid _ hc), Volume.cluster_eq hg (hvalid _ hc)]
      exact hbytes _ hc _ (by omega) hP
    have hscan : scanEntries (v'.cluster cur.dir) v.bpb.entriesPerCluster cur.elem =
        scanEntries (v.cluster cur.dir) v.bpb.entriesPerCluster cur.elem :=
      scanEntries_congr fun i hi j hj => hsame i hi j (by omega) (by unfold EntryField; omega)
    rw [if_neg hend] at h ⊢
    rw [hb, hscan]
    cases hm : scanEntries (v.cluster cur.dir) v.bpb.entriesPerCluster cur.elem with
    | none =>
      simp only [hm] at h ⊢
      have hn : v'.next cur.dir = v.next cur.dir := by rw [Volume.next, Volume.next, hfat _ hc]
      rw [hn]
      exact lookup_agree hg hb hvalid hfat hbytes hnext hroot hattr fuel h (hnext _ hc) hds
    | some i =>
      have hi := (scanEntries_some hm).1
      have hat : v'.attr (cur.dir, i) = v.attr (cur.dir, i) :=
        hsame i hi 11 (by omega) (by unfold EntryField; omega)
      simp only [hm] at h ⊢
      rw [hat]
      by_cases hd : v.attr (cur.dir, i) = kDirectory ∧ cur.pathLast = false
      · rw [if_pos hd] at h ⊢
        have hne : (cur.dir, i) ≠ e := fun he => hattr (he ▸ hd.1)
        have hfirst : v'.first (cur.dir, i) = v.first (cur.dir, i) := by
          refine firstCluster_congr fun j hj => hsame i hi j hj ?_
          rintro ⟨h1, h2⟩
          refine hne (Prod.ext h1 ?_)
          simp only
          omega
        obtain ⟨⟨ds', r'⟩, h', heq⟩ := Option.map_eq_some_iff.mp h
        obtain ⟨cur', hst, hlk⟩ := Option.bind_eq_some_iff.mp h'
        obtain ⟨rfl, rfl⟩ := Prod.mk.inj heq
        have hcur' : D cur'.dir := by
          rcases findStart_dir hst with hr | ⟨-, hr⟩
          · rw [hr]
            exact hroot
          · rw [hr]
            exact hds _ (by simp)
        rw [hfirst, hst, Option.bind_some, lookup_agree hg hb hvalid hfat hbytes hnext hroot hattr fuel hlk (.inl hcur')
          fun d hd => hds d (List.mem_cons_of_mem _ hd)]
        rfl
      · rwa [if_neg hd] at h ⊢

/-! ## The tree after a write -/

/-- What the results about writes to one file assume: the volume, the file and its chain before the first write. -/
structure Tree (v : Volume) (path : List UInt8) (e : Slot) (own : List Nat) : Prop where
  wf : WellFormed v
  file : Existing v path e
  chain : IsChain v (v.first e) own

theorem regular_bits {a : UInt8} (h : a &&& 0x18 = 0) : a &&& 0x10 = 0 := by
  have hmask : (0x10 : UInt8) = 0x18 &&& 0x10 := by decide
  rw [hmask, ← UInt8.and_assoc, h, UInt8.zero_and]

namespace Tree

variable {v v' : Volume} {path : List UInt8} {e : Slot} {own own' : List Nat}

theorem dir_apart (h : Tree v path e own) {c : Nat} (hc : DirCluster v c) : c ∉ own :=
  h.wf.dir_apart h.file.live (regular_bits h.file.regular) h.chain hc

/-- A cluster in use that is not on the file's chain does not get on it. -/
theorem stays_apart {P : Nat → Nat → Prop} (hev : Evolves P v v' own own') {c : Nat} (hc : c ∉ own)
    (hused : v.fatAt c ≠ 0) : c ∉ own' := by
  obtain ⟨ns, rfl, hns⟩ := hev.ext
  intro hm
  exact (List.mem_append.mp hm).elim hc fun hm => hused (hns c hm)

theorem dir_stays_apart (h : Tree v path e own) {P : Nat → Nat → Prop} (hev : Evolves P v v' own own') {c : Nat}
    (hc : DirCluster v c) : c ∉ own' :=
  stays_apart hev (h.dir_apart hc) hc.used

/-- Every search comes to what it came to before. -/
theorem lookup_eq (h : Tree v path e own) (hev : Evolves (EntryField e) v v' own own') {fuel : Nat} {cur : Cursor}
    {ds : List Slot} {r : Option Slot} (hl : lookup v fuel cur = some (ds, r)) (hcur : DirCluster v cur.dir)
    (hds : ∀ d ∈ ds, DirCluster v (v.first d)) : lookup v' fuel cur = some (ds, r) := by
  have hg := h.wf.geometry
  refine lookup_agree (D := DirCluster v) (e := e) hg hev.bpb (fun c hc => hc.valid)
    (fun c hc => hev.fat c hc.valid (h.dir_stays_apart hev hc))
    (fun c hc j hj hP => hev.bytes c j hc.valid hj (h.dir_stays_apart hev hc) hP) (fun c hc => hc.next hg)
    h.wf.root_dirCluster ?_ fuel hl (.inl hcur) hds
  exact fun hd => kDirectory_bit hd (regular_bits h.file.regular)

/-- The slots a search went through hold directories. -/
theorem entered_directories : ∀ (fuel : Nat) {cur : Cursor} {ds : List Slot} {r : Option Slot},
    lookup v fuel cur = some (ds, r) → ∀ d ∈ ds, v.attr d = kDirectory
  | 0, _, _, _, h => by simp [lookup] at h
  | fuel + 1, cur, ds, r, h => by
    rw [lookup] at h
    split at h
    · cases h
      simp
    · split at h
      · split at h
        · rename_i hd
          obtain ⟨⟨ds', r'⟩, h', heq⟩ := Option.map_eq_some_iff.mp h
          obtain ⟨cur', -, hlk⟩ := Option.bind_eq_some_iff.mp h'
          obtain ⟨rfl, rfl⟩ := Prod.mk.inj heq
          intro d hm
          rcases List.mem_cons.mp hm with rfl | hm
          · exact hd.1
          · exact entered_directories fuel hlk d hm
        · cases h
          simp
      · exact entered_directories fuel h

/-- The path leads to the same entry after any write. -/
theorem found (h : Tree v path e own) : ∃ F cur ds, findStart v.bpb path 0 = some cur ∧
    ∀ v' own', Evolves (EntryField e) v v' own own' → lookup v' F cur = some (ds, some e) := by
  obtain ⟨ds, ⟨F, cur, hst, hlk⟩, hlive⟩ := h.file.names
  have hroot := h.wf.root_dirCluster
  refine ⟨F, cur, ds, hst, fun v' own' hev => h.lookup_eq hev hlk ?_ fun d hd => ?_⟩
  · rcases findStart_dir hst with hr | ⟨h0, -⟩
    · rwa [hr]
    · exact absurd rfl h0
  · exact h.wf.first_dirCluster (hlive d hd) (kDirectory_bit (entered_directories F hlk d hd))

end Tree

end KinOS.Fs
