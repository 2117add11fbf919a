import KinOS.Fs.PathWalk
import KinOS.Fs.ShortName
import KinOS.Fs.Space

/-!
# Finding a created file again

`CreateFile` takes the first free slot of the parent directory, `FindFile` the first slot that compares equal, free or not.
A file is found again when what `SetFileName` writes is what `NameIsEqual` compares with (`Fits83`), when no slot ahead
of the one taken has the name (a volume label can), and when every directory of the path has the attribute byte
`kDirectory` and no other bit: `FindFile` enters no other.

| here | there |
| --- | --- |
| `Server.openFile`    | `OpenState::HandleMessage`, `Target::File` (`servers/fs/serverstate.cpp:203-246`) |
| `Placed`             | `AllocateEntry`, `SetFileName` (`servers/fs/fs.cpp:236-257`, `307-322`) |
| `createFile_refound` | `CreateFile`, then `FindFile` (`fs.cpp:153-189`, `204-234`) |
-/

namespace KinOS.Fs

open Bytes

/-! ## Opening a file -/

/-- The flag of `open` that asks for a new file. -/
def O_CREAT : UInt32 := 0x200

/-- `sm_.arg.open` of the reply `kOpen`, or `sm_.arg.error` of the reply `kError`. -/
inductive OpenReply
  | open (filename : List UInt8) (exist isdirectory : Bool)
  | error (retry : Bool) (err : Errno)
deriving DecidableEq, Repr

namespace Server

/-- The reply to a request to open a file, and the slot of the file it has created. -/
def openFile (fuel : Nat) (s : Server) (path : List UInt8) (flags : UInt32) : Option (Server × OpenReply × Option Slot) :=
  match s.findFile fuel path 0 with
  | none => none
  | some (s, none, _) =>
    if flags &&& O_CREAT = 0 then some (s, .error false .ENOENT, none)
    else (s.createFile fuel path).map fun
      | (s, .error err) => (s, .error false err, none)
      | (s, .ok e) => (s, .open path true false, some e)
  | some (s, some i, _) =>
    if entryAttr s.clusterBuf (32 * i) = kDirectory then some (s, .error false .EISDIR, none)
    else some (s, .open path true false, none)

/-- One such request after the other, with `O_CREAT`: the slots of the files created. -/
def reopen (fuel : Nat) (path : List UInt8) : Nat → Server → Option (Server × List Slot)
  | 0, s => some (s, [])
  | n + 1, s => (s.openFile fuel path O_CREAT).bind fun (s, _, created) =>
    (reopen fuel path n s).map fun r => (r.1, created.toList ++ r.2)

end Server

/-! ## The slot that is taken -/

/-- Neither an end marker nor a deleted entry. -/
def Volume.used (v : Volume) (e : Slot) : Bool := v.name0 e ≠ 0 ∧ v.name0 e ≠ 0xe5

/-- The slots ahead of the first free one. -/
def Volume.ahead (v : Volume) (ds : List Nat) : List Slot := (v.slots ds).takeWhile v.used

/-- The search for a slot comes to the first free one, or to the end of the chain if there is none. -/
def TakesFirst (v : Volume) (ds : List Nat) : Slot ⊕ Nat → Prop
  | .inl e => v.used e = false ∧ ∃ post, v.slots ds = v.ahead ds ++ e :: post
  | .inr _ => v.slots ds = v.ahead ds

section Ahead

variable {v : Volume} {c : Nat} {cs ds : List Nat} {e : Slot}

theorem Volume.mem_ahead (h : e ∈ v.ahead ds) : v.used e = true := List.mem_takeWhile_imp h

theorem Volume.ahead_subset (h : e ∈ v.ahead ds) : e ∈ v.slots ds := (List.takeWhile_sublist _).subset h

theorem Volume.slots_cons : v.slots (c :: cs) = ((List.range v.bpb.entriesPerCluster).map fun i => (c, i)) ++ v.slots cs :=
  List.flatMap_cons

theorem freeSlot_find : freeSlot (v.cluster c) v.bpb.entriesPerCluster =
    (List.range v.bpb.entriesPerCluster).find? fun i => !v.used (c, i) := by
  unfold freeSlot Volume.used Volume.name0
  congr 1
  funext i
  by_cases h0 : v.cluster c (32 * i) = 0 <;> by_cases h5 : v.cluster c (32 * i) = 0xe5 <;> simp [h0, h5]

/-- Ahead of a split at a free slot is what is before it. -/
theorem Volume.ahead_split {pre post : List Slot} (hsplit : v.slots ds = pre ++ e :: post)
    (hpre : ∀ x ∈ pre, v.used x = true) (he : v.used e = false) : v.ahead ds = pre := by
  rw [Volume.ahead, hsplit, List.takeWhile_append_of_pos hpre, List.takeWhile_cons_of_neg (by simp [he]), List.append_nil]

/-- The first cluster has a free slot, or all of it is ahead. -/
theorem TakesFirst.cons (hfull : ∀ i < v.bpb.entriesPerCluster, v.used (c, i) = true) :
    ∀ {r : Slot ⊕ Nat}, TakesFirst v cs r → TakesFirst v (c :: cs) r := by
  have hall : ∀ x ∈ (List.range v.bpb.entriesPerCluster).map fun i => (c, i), v.used x = true := by
    intro x hx
    obtain ⟨i, hi, rfl⟩ := List.mem_map.mp hx
    exact hfull i (List.mem_range.mp hi)
  have hahead : v.ahead (c :: cs) = ((List.range v.bpb.entriesPerCluster).map fun i => (c, i)) ++ v.ahead cs := by
    rw [Volume.ahead, Volume.slots_cons, List.takeWhile_append_of_pos hall]
    rfl
  rintro (e | last) h
  · obtain ⟨he, post, hsplit⟩ := h
    exact ⟨he, post, by rw [hahead, Volume.slots_cons, hsplit, List.append_assoc]⟩
  · have hsplit : v.slots cs = v.ahead cs := h
    show v.slots (c :: cs) = v.ahead (c :: cs)
    rw [hahead, Volume.slots_cons, ← hsplit]

theorem openSlot_first (hg : v.bpb.Geometry) : ∀ {fuel c : Nat} {cs : List Nat} {r : Slot ⊕ Nat}, Linked v (c :: cs) →
    (∀ d ∈ c :: cs, v.bpb.Valid d) → openSlot v fuel c = some r → TakesFirst v (c :: cs) r
  | fuel + 1, c, cs, r, hl, hv, h => by
    rw [openSlot, freeSlot_find] at h
    cases hm : (List.range v.bpb.entriesPerCluster).find? fun i => !v.used (c, i) with
    | some i =>
      simp only [hm, Option.some.injEq] at h
      subst h
      obtain ⟨hfree, pre, post, hrange, hpre⟩ := List.find?_eq_some_iff_append.mp hm
      have hfree : v.used (c, i) = false := by simpa using hfree
      have hsplit : v.slots (c :: cs) = pre.map (fun i => (c, i)) ++ (c, i) ::
        (post.map (fun i => (c, i)) ++ v.slots cs) := by
        rw [Volume.slots_cons, hrange, List.map_append, List.map_cons, List.append_assoc, List.cons_append]
      have hused : ∀ x ∈ pre.map fun i => (c, i), v.used x = true := by
        intro x hx
        obtain ⟨j, hj, rfl⟩ := List.mem_map.mp hx
        simpa using hpre j hj
      exact ⟨hfree, _, by rw [Volume.ahead_split hsplit hused hfree]; exact hsplit⟩
    | none =>
      have hfull : ∀ i < v.bpb.entriesPerCluster, v.used (c, i) = true := by
        intro i hi
        simpa using List.find?_eq_none.mp hm i (List.mem_range.mpr hi)
      simp only [hm] at h
      cases cs with
      | nil =>
        rw [if_pos (show v.next c = 0x0fffffff from if_pos hl), Option.some.injEq] at h
        subst h
        exact @TakesFirst.cons v c [] hfull (.inr c) rfl
      | cons d cs =>
        have hd : v.next c = d := hl.starts_next hg fun x hx => hv x (List.mem_cons_of_mem _ hx)
        rw [if_neg (by rw [hd]; exact ((hv d (by simp)).ne hg).2), hd] at h
        exact (openSlot_first hg hl.2 (fun x hx => hv x (List.mem_cons_of_mem _ hx)) h).cons hfull

end Ahead

/-! ## The volume with the new entry -/

/-- The entry is in the first free slot of the directory with chain `ds`, or in a new cluster behind it, with the name as
`SetFileName` writes it; every other slot in use is as before. -/
structure Placed (v v1 : Volume) (ds ds' : List Nat) (e : Slot) (name : List UInt8) : Prop where
  bpb : v1.bpb = v.bpb
  fat : ∀ c, v.bpb.Valid c → v.fatAt c ≠ 0 → c ∉ ds → v1.fatAt c = v.fatAt c
  bytes : ∀ c, v.bpb.Valid c → v.fatAt c ≠ 0 → ∀ j < v.bpb.bytesPerCluster,
    ¬ (c = e.1 ∧ 32 * e.2 ≤ j ∧ j < 32 * e.2 + 32) → v1.byteAt c j = v.byteAt c j
  chain : IsChain v1 (ds.headD 0) ds'
  slots : ∃ post, v.slots ds' = v.ahead ds ++ e :: post
  home : e.1 ∈ ds ∨ v.fatAt e.1 = 0
  new : e ∉ v.ahead ds
  name : ∀ j < 11, v1.byteAt e.1 (32 * e.2 + j) = (shortName name).getD j 0x20

/-- There is a place for an entry: a free slot in the directory, or a free cluster on the volume. -/
def HasPlace (v : Volume) (ds : List Nat) : Prop := v.slots ds = v.ahead ds → 0 < v.free.length

/-- The name in the bytes of the entry. -/
theorem entryBuf_name {m : Mem} {i j : Nat} {name : List UInt8} (hj : j < 11) :
    store 4 (setFileName m (32 * i) name) (32 * i + 28) 0 (32 * i + j) = (shortName name).getD j 0x20 := by
  rw [store_outside (by omega), setFileName]
  exact (copy_inside hj).trans (by rw [Nat.zero_add])

namespace Server

variable {s : Server} {e : Slot} {name path : List UInt8} {ds : List Nat} {c : Nat}

/-- In a free slot. -/
theorem writeEntry_placed (hg : s.vol.bpb.Geometry) (hds : IsChain s.vol c ds) (hin : e.1 ∈ ds)
    (hi : e.2 < s.vol.bpb.entriesPerCluster) (hfirst : TakesFirst s.vol ds (.inl e)) {t : Server} (hv : t.vol = s.vol)
    (hl : t.Loaded e.1) :
    Placed s.vol (t.writeEntry e name).vol ds ds e name := by
  have hval := hds.valid _ hin
  have hge : t.vol.bpb.Geometry := by rwa [hv]
  have hvol := @writeEntry_vol t e name hge (by rwa [hv])
  rw [hv] at hvol
  have hfat : ∀ x, s.vol.bpb.Valid x → (t.writeEntry e name).vol.fatAt x = s.vol.fatAt x := by
    intro x hx
    rw [hvol]
    exact Volume.fatAt_setCluster hg hx.2
  have hb : (t.writeEntry e name).vol.bpb = s.vol.bpb := by rw [hvol, Volume.setCluster_bpb]
  have hend := Server.index_bound hi
  obtain ⟨hfree, hsplit⟩ := hfirst
  refine ⟨hb, fun x hx _ _ => hfat x hx, fun x hx _ j hj hout => ?_, ?_, hsplit, .inl hin, fun hm => ?_, fun j hj => ?_⟩
  · rw [hvol]
    by_cases heq : x = e.1
    · subst heq
      rw [Volume.byteAt_setCluster_self hj, entryBuf_outside (by omega),
        hl.byteAt hge (by rwa [hv]) (by rwa [hv]), hv]
    · exact Volume.byteAt_setCluster_other hval hx heq hj
  · have hself := hds.self
    exact ⟨hself.head, by rw [hb]; exact hds.valid, hds.nodup, hds.linked.congr fun x hx => hfat x (hds.valid x hx)⟩
  · rw [Volume.mem_ahead hm] at hfree
    cases hfree
  · rw [hvol, Volume.byteAt_setCluster_self (by omega), entryBuf_name hj]

/-- In a new cluster. -/
theorem newCluster_placed (hg : s.vol.bpb.Geometry) (hds : IsChain s.vol c ds) (hfull : s.vol.slots ds = s.vol.ahead ds)
    {n : Nat} {t : Server} (hb : t.vol.bpb = s.vol.bpb) (hext : Extends s.vol t.vol c ds [n])
    (hbytes : ∀ x j, t.vol.byteAt x j = s.vol.byteAt x j) :
    Placed s.vol ((t.clearedCluster n).writeEntry (n, 0) name).vol ds (ds ++ [n]) (n, 0) name := by
  obtain ⟨hn, hzero⟩ := Volume.mem_free.mp (hext.wasFree n (by simp))
  have hgt : t.vol.bpb.Geometry := by rwa [hb]
  have hnt : t.vol.bpb.Valid n := by rwa [hb]
  have hvol : ((t.clearedCluster n).writeEntry (n, 0) name).vol = t.vol.setCluster n
      (store 4 (setFileName (t.clearedCluster n).clusterBuf (32 * 0) name) (32 * 0 + 28) 0) :=
    writeEntry_vol (s := t.clearedCluster n) (e := (n, 0)) hgt hnt
  have hfat : ∀ x, s.vol.bpb.Valid x → ((t.clearedCluster n).writeEntry (n, 0) name).vol.fatAt x = t.vol.fatAt x := by
    intro x hx
    rw [hvol]
    exact Volume.fatAt_setCluster hgt (by rw [hb]; exact hx.2)
  have hbpb : ((t.clearedCluster n).writeEntry (n, 0) name).vol.bpb = s.vol.bpb := by rw [hvol, Volume.setCluster_bpb, hb]
  have hge := hg.bytesPerCluster_ge
  have hper : 0 < s.vol.bpb.entriesPerCluster := by
    unfold BPB.entriesPerCluster
    omega
  refine ⟨hbpb, fun x hx hused hout => ?_, fun x hx hused j hj _ => ?_, ?_, ?_, .inr hzero, fun hm => ?_, fun j hj => ?_⟩
  · rw [hfat x hx]
    refine hext.other x (fun hm => ?_) fun hl => hout (List.mem_of_getLast? hl)
    obtain rfl := List.mem_singleton.mp hm
    exact hused hzero
  · have hne : x ≠ n := by
      rintro rfl
      exact hused hzero
    rw [hvol, Volume.byteAt_setCluster_other hnt (by rwa [hb]) hne (by rwa [hb]), hbytes]
  · obtain ⟨hhead, hval, hnd, hl⟩ := hext.chain
    have hchain : IsChain ((t.clearedCluster n).writeEntry (n, 0) name).vol c (ds ++ [n]) :=
      ⟨hhead, by rw [hbpb, ← hb]; exact hval, hnd, hl.congr fun x hx => hfat x (hb ▸ hval x hx)⟩
    rw [← hds.head] at hchain
    exact hchain
  · obtain ⟨k, hk⟩ : ∃ k, s.vol.bpb.entriesPerCluster = k + 1 := ⟨_, (Nat.succ_pred_eq_of_pos hper).symm⟩
    rw [Volume.slots_append, hfull, Volume.slots_cons, hk, List.range_succ_eq_map]
    exact ⟨_, rfl⟩
  · have hmem := (Volume.mem_slots.mp (Volume.ahead_subset hm)).1
    exact hds.linked.not_free hds.valid n hmem hzero
  · rw [hvol, Volume.byteAt_setCluster_self (by rw [hb]; omega), entryBuf_name hj]

/-- **`CreateFile` places the entry**, given time and a place for it. -/
theorem createFile_placed (hg : s.vol.bpb.Geometry) (hp : ParentOf s.vol path c name) (hds : IsChain s.vol c ds)
    (hne : ds ≠ []) (hplace : HasPlace s.vol ds) : ∃ F, ∀ fuel ≥ F, ∀ u : Server, u.vol = s.vol → ∃ s1 e ds',
      u.createFile fuel path = some (s1, .ok e) ∧ Placed s.vol s1.vol ds ds' e name := by
  obtain ⟨f, fs, rfl⟩ := List.exists_cons_of_ne_nil hne
  obtain rfl : f = c := hds.head
  obtain ⟨F, hF⟩ := createFile_runs hg hp hds hne fun fuel last hr => hplace (openSlot_first hg hds.linked hds.valid hr)
  refine ⟨F, fun fuel hf u hu => ?_⟩
  rcases hF fuel hf u hu with ⟨e, t, hr, hv, hl, hrun⟩ | ⟨last, n, t, hr, hv, hext, hrun⟩
  · obtain ⟨hin, hi, -⟩ := openSlot_opens hg hds.linked hds.valid hr
    exact ⟨_, e, _, hrun, writeEntry_placed hg hds hin hi (openSlot_first hg hds.linked hds.valid hr) hv hl⟩
  · obtain ⟨pre, hsplit⟩ := openSlot_opens hg hds.linked hds.valid hr
    have hlast : s.vol.bpb.Valid last := hds.valid last (by rw [hsplit]; simp)
    have hn := (Volume.mem_free.mp (hext.wasFree n (by simp))).1
    have hb : t.vol.bpb = s.vol.bpb := by rw [hv, Volume.append_bpb]
    refine ⟨_, (n, 0), _, hrun, newCluster_placed hg hds (openSlot_first hg hds.linked hds.valid hr) hb hext fun x j => ?_⟩
    rw [hv]
    refine Volume.byteAt_append hg rfl fun y hy => ?_
    rcases List.mem_cons.mp hy with rfl | hy
    · exact hlast.2
    · obtain rfl := List.mem_singleton.mp hy
      exact hn.2

end Server

/-! ## The way to the directory -/

/-- `FindFile` in the directory with chain `ds`, with these components before it. -/
structure At (trail : Bool) (ds : List Nat) (comps : List (List UInt8)) (cur : Cursor) : Prop where
  dir : cur.dir = ds.headD 0
  comps : ∃ rest, comps = cur.elem :: rest ∧ cur.nextPath = spell trail rest ∧ cur.pathLast = decide (rest = [])

section At

variable {v : Volume} {ds cs : List Nat} {next : List UInt8} {comps : List (List UInt8)} {lead trail : Bool} {d : Slot}
  {dir : Nat}

/-- The first call of `FindFile`, in the root directory or in the one given. -/
theorem At.start (hne : comps ≠ []) (hcomp : ∀ y ∈ comps, Component y)
    (hstart : ds.headD 0 = if lead = true ∨ dir = 0 then v.bpb.rootCluster.toNat else dir) :
    ∃ cur, findStart v.bpb (rooted lead (spell trail comps)) dir = some cur ∧ At trail ds comps cur := by
  obtain ⟨elem, rest, rfl⟩ := List.exists_cons_of_ne_nil hne
  refine ⟨_, findStart_spell lead (hcomp elem (by simp)) fun y hy => hcomp y (List.mem_cons_of_mem _ hy), ?_, rest,
    rfl, rfl, rfl⟩
  exact hstart.symm

/-- The next call of `FindFile`. -/
theorem At.further (hg : v.bpb.Geometry) (hcomp : ∀ y ∈ next :: comps, Component y) (hc : IsChain v (v.first d) cs)
    (hne : cs ≠ []) : ∃ cur', findStart v.bpb (spell trail (next :: comps)) (v.first d) = some cur' ∧
      At trail cs (next :: comps) cur' := by
  obtain ⟨c, cs', rfl⟩ := List.exists_cons_of_ne_nil hne
  obtain rfl : c = v.first d := hc.head
  have h0 := ((hc.valid _ (List.mem_cons_self ..)).ne hg).1
  have hstart := @At.start v (v.first d :: cs') (next :: comps) false trail (v.first d) (by simp) hcomp (by simp [h0])
  exact hstart

end At

/-- The live directories that the components name one after the other, each in the first slot with its name. -/
inductive Leads (v : Volume) : List Nat → List (List UInt8) → List Slot → List Nat → Prop
  | here {ds : List Nat} : Leads v ds [] [] ds
  | enter {ds cs es : List Nat} {elem : List UInt8} {comps : List (List UInt8)} {d : Slot} {way : List Slot} :
      v.firstNamed ds elem = some d → LiveIn v ds d → v.attr d &&& 0x10 ≠ 0 → IsChain v (v.first d) cs →
      Leads v cs comps way es → Leads v ds (elem :: comps) (d :: way) es

/-- `FindFile` goes on from the first of these directories to the second: every name is first that of a plain directory. -/
inductive Passes (v : Volume) : List Nat → List (List UInt8) → List Nat → Prop
  | here {ds : List Nat} : Passes v ds [] ds
  | enter {ds cs es : List Nat} {elem : List UInt8} {comps : List (List UInt8)} {d : Slot} :
      v.firstNamed ds elem = some d → v.attr d = kDirectory → IsChain v (v.first d) cs → cs ≠ [] → Passes v cs comps es →
      Passes v ds (elem :: comps) es

/-- The clusters of a directory are as before. -/
structure KeptDir (v v1 : Volume) (ds : List Nat) : Prop where
  bpb : v1.bpb = v.bpb
  chain : IsChain v1 (ds.headD 0) ds
  bytes : ∀ c ∈ ds, ∀ j < v.bpb.bytesPerCluster, v1.byteAt c j = v.byteAt c j

section Way

variable {v v1 : Volume} {ds ds' cs es : List Nat} {elem name : List UInt8} {comps rest : List (List UInt8)}
  {way : List Slot} {d e x : Slot} {n m : Nat} {trail : Bool} {cur : Cursor}

theorem Passes.snoc (h : Passes v ds comps es) (hfirst : v.firstNamed es elem = some d) (hattr : v.attr d = kDirectory)
    (hc : IsChain v (v.first d) cs) (hne : cs ≠ []) : Passes v ds (comps ++ [elem]) cs := by
  induction h with
  | here => exact .enter hfirst hattr hc hne .here
  | enter hf ha hch hcne _ ih => exact .enter hf ha hch hcne (ih hfirst)

/-- The search goes on behind the components passed. -/
theorem Passes.goesOn (hg : v.bpb.Geometry) (h : Passes v ds comps es) : ∀ {cur : Cursor}, IsChain v (ds.headD 0) ds →
    ds ≠ [] → rest ≠ [] → (∀ y ∈ comps ++ rest, Component y) → At trail ds (comps ++ rest) cur →
    IsChain v (es.headD 0) es ∧ es ≠ [] ∧ ∃ cur', At trail es rest cur' ∧
      ∀ k r, lookup v k cur' = some r →
        ∃ ws, lookup v (k + comps.length * (v.bpb.top + 2)) cur = some (ws, r.2) := by
  induction h with
  | here =>
    intro cur hc hne _ _ hat
    exact ⟨hc, hne, cur, hat, fun k r hr => ⟨r.1, by simpa using hr⟩⟩
  | @enter ds cs es elem comps d hfirst hattr hcs hcne _ ih =>
    intro cur hc hne hrest hcomp hat
    obtain ⟨next, tail, htail⟩ : ∃ next tail, comps ++ rest = next :: tail :=
      List.exists_cons_of_ne_nil fun h => hrest (List.append_eq_nil_iff.mp h).2
    have hcomp' : ∀ y ∈ comps ++ rest, Component y := fun y hy => hcomp y (List.mem_cons_of_mem _ hy)
    obtain ⟨cur1, hst, hat1⟩ := @At.further v cs next tail trail d hg (htail ▸ hcomp') hcs hcne
    rw [← htail] at hat1
    obtain ⟨hces, hesne, cur', hat', hgo⟩ := ih hcs.self hcne hrest hcomp' hat1
    refine ⟨hces, hesne, cur', hat', fun k r hr => ?_⟩
    obtain ⟨ws, hws⟩ := hgo k r hr
    obtain ⟨rest', heq, hnext, hlast⟩ := hat.comps
    rw [List.cons_append, List.cons.injEq] at heq
    obtain ⟨rfl, rfl⟩ := heq
    obtain ⟨c, cs', rfl⟩ := List.exists_cons_of_ne_nil hne
    rw [htail] at hlast hnext
    rw [← hnext] at hst
    refine ⟨d :: ws, ?_⟩
    rw [List.length_cons, Nat.succ_mul, ← Nat.add_assoc]
    exact lookup_enter hg hc hat.dir hfirst hattr (by rw [hlast]; simp) hst hws

theorem KeptDir.refl (hc : IsChain v (ds.headD 0) ds) : KeptDir v v ds := ⟨rfl, hc, fun _ _ _ _ => rfl⟩

theorem KeptDir.cluster (hg : v.bpb.Geometry) (h : KeptDir v v1 ds) {c j : Nat} (hc : c ∈ ds)
    (hj : j < v.bpb.bytesPerCluster) : v1.cluster c j = v.cluster c j := by
  have hval := h.chain.valid c hc
  rw [Volume.cluster_eq (by rwa [h.bpb]) hval, Volume.cluster_eq hg (by rwa [← h.bpb]), h.bytes c hc j hj]

theorem KeptDir.slots (h : KeptDir v v1 ds) (cs : List Nat) : v1.slots cs = v.slots cs := by
  unfold Volume.slots
  rw [h.bpb]

theorem KeptDir.entry (hg : v.bpb.Geometry) (h : KeptDir v v1 ds) (hx : x ∈ v.slots ds) {j : Nat} (hj : j < 32) :
    v1.cluster x.1 (32 * x.2 + j) = v.cluster x.1 (32 * x.2 + j) := by
  obtain ⟨hin, hi⟩ := Volume.mem_slots.mp hx
  have hend := Server.index_bound hi
  exact h.cluster hg hin (by omega)

theorem KeptDir.firstNamed (hg : v.bpb.Geometry) (h : KeptDir v v1 ds) : v1.firstNamed ds elem = v.firstNamed ds elem := by
  rw [Volume.firstNamed, Volume.firstNamed, h.slots]
  refine List.find?_congr fun x hx => ?_
  exact nameIsEqual_congr fun j hj => h.entry hg hx (by omega)

theorem KeptDir.attr (hg : v.bpb.Geometry) (h : KeptDir v v1 ds) (hx : x ∈ v.slots ds) : v1.attr x = v.attr x :=
  h.entry hg hx (show 11 < 32 by decide)

theorem KeptDir.first (hg : v.bpb.Geometry) (h : KeptDir v v1 ds) (hx : x ∈ v.slots ds) : v1.first x = v.first x :=
  firstCluster_congr fun _ hj => h.entry hg hx hj

theorem Volume.firstNamed_mem (h : v.firstNamed ds elem = some d) : d ∈ v.slots ds := List.mem_of_find?_eq_some h

theorem Leads.dirAt (h : Leads v ds comps way es) : ∀ {n : Nat}, DirAt v n ds → DirAt v (n + comps.length) es := by
  induction h with
  | here => exact fun h => h
  | enter _ hlive hbit hc _ ih =>
    intro n hd
    have hes := ih (.sub hd hlive hbit hc)
    rwa [List.length_cons, ← Nat.add_assoc, Nat.add_right_comm]

/-- Plain directories are passed, also after a change of directories further down. -/
theorem Leads.passes (hwf : WellFormed v) (hkept : ∀ k < m, ∀ cs, DirAt v k cs → KeptDir v v1 cs)
    (h : Leads v ds comps way es) : ∀ {n : Nat}, DirAt v n ds → n + comps.length < m →
      (∀ x ∈ way, v.attr x = kDirectory) → Passes v1 ds comps es := by
  induction h with
  | here => exact fun _ _ _ => .here
  | @enter ds cs es elem comps d way hfirst hlive hbit hc _ ih =>
    intro n hd hlt hway
    rw [List.length_cons] at hlt
    have hg := hwf.geometry
    have hkd := hkept n (by omega) _ hd
    have hsub : DirAt v (n + 1) cs := .sub hd hlive hbit hc
    have hkc := hkept (n + 1) (by omega) _ hsub
    have hmem := Volume.firstNamed_mem hfirst
    refine .enter (d := d) ?_ ?_ ?_ (hwf.directory_ne_nil hsub.directory)
      (ih hsub (by omega) fun x hx => hway x (by simp [hx]))
    · rw [hkd.firstNamed hg, hfirst]
    · rw [hkd.attr hg hmem]
      exact hway d (by simp)
    · rw [hkd.first hg hmem, ← hc.head]
      exact hkc.chain

theorem Placed.ne_nil (h : Placed v v1 ds ds' e name) : ds' ≠ [] := by
  obtain ⟨post, hsplit⟩ := h.slots
  rintro rfl
  simp [Volume.slots] at hsplit

/-- Directories that are not as deep are kept. -/
theorem Placed.kept (hwf : WellFormed v) (h : Placed v v1 ds ds' e name) (hd : DirAt v m ds) : ∀ k < m, ∀ cs,
    DirAt v k cs → KeptDir v v1 cs := by
  intro k hk cs hcs
  have hapart : ∀ c ∈ cs, c ∉ ds := fun c hc hm => hcs.apart hwf hd hk hc hm
  obtain ⟨f, fs, hfs, hchain, -⟩ := hcs.chain hwf
  have hused : ∀ c ∈ cs, v.fatAt c ≠ 0 := by
    rw [hfs]
    exact hchain.linked.not_free hchain.valid
  obtain rfl := hfs
  have hself := hchain.self
  refine ⟨h.bpb, ⟨hself.head, by rw [h.bpb]; exact hself.valid, hself.nodup,
    hself.linked.congr fun c hc => h.fat c (hself.valid c hc) (hused c hc) (hapart c hc)⟩, fun c hc j hj => ?_⟩
  refine h.bytes c (hself.valid c hc) (hused c hc) j hj fun hin => ?_
  rcases h.home with hm | hz
  · exact hapart c hc (hin.1 ▸ hm)
  · exact hused c hc (hin.1 ▸ hz)

/-- The first directory on the way that is not plain, or the last one: `d`, in the directory with chain `es`. -/
structure StopsAt (v : Volume) (ds : List Nat) (comps : List (List UInt8)) (elem : List UInt8) (es : List Nat) (d : Slot)
    (cs : List Nat) : Prop where
  leads : ∃ way, Leads v ds comps way es ∧ ∀ x ∈ way, v.attr x = kDirectory
  first : v.firstNamed es elem = some d
  live : LiveIn v es d
  bit : v.attr d &&& 0x10 ≠ 0
  chain : IsChain v (v.first d) cs

/-- All directories of the way are plain and the stop is the last one, or it is one that is not plain. -/
theorem Leads.stops (h : Leads v ds comps way es) (hne : comps ≠ []) : ∃ front elem rest ds' d cs,
    comps = front ++ elem :: rest ∧ StopsAt v ds front elem ds' d cs ∧
    ((∀ x ∈ way, v.attr x = kDirectory) ∧ v.attr d = kDirectory ∧ rest = [] ∧ cs = es ∨
      v.attr d ≠ kDirectory ∧ ∃ x ∈ way, v.attr x ≠ kDirectory) := by
  induction h with
  | here => exact absurd rfl hne
  | @enter ds cs es elem comps d way hfirst hlive hbit hc htail ih =>
    by_cases hattr : v.attr d = kDirectory
    · by_cases hnil : comps = []
      · subst hnil
        cases htail
        exact ⟨[], elem, [], ds, d, cs, rfl, ⟨⟨[], .here, by simp⟩, hfirst, hlive, hbit, hc⟩,
          .inl ⟨by simpa using hattr, hattr, rfl, rfl⟩⟩
      · obtain ⟨front, elem', rest, ds', d', cs', rfl, ⟨⟨way', hl, hplain⟩, hf', hl', hb', hc'⟩, hor⟩ := ih hnil
        refine ⟨elem :: front, elem', rest, ds', d', cs', rfl,
          ⟨⟨d :: way', .enter hfirst hlive hbit hc hl, ?_⟩, hf', hl', hb', hc'⟩, ?_⟩
        · exact List.forall_mem_cons.mpr ⟨hattr, hplain⟩
        · refine hor.imp (fun ⟨hall, hd⟩ => ⟨List.forall_mem_cons.mpr ⟨hattr, hall⟩, hd⟩) fun ⟨hd, x, hx, hxa⟩ => ?_
          exact ⟨hd, x, List.mem_cons_of_mem _ hx, hxa⟩
    · exact ⟨[], elem, comps, ds, d, cs, rfl, ⟨⟨[], .here, by simp⟩, hfirst, hlive, hbit, hc⟩,
        .inr ⟨hattr, d, by simp, hattr⟩⟩

end Way

/-! ## The search for the path -/

/-- What the search for a path comes to, in at most so many rounds. -/
def Volume.Gives (v : Volume) (k : Nat) (path : List UInt8) (o : Option Slot) : Prop :=
  ∃ cur ws, findStart v.bpb path 0 = some cur ∧ lookup v k cur = some (ws, o)

section Path

variable {v : Volume} {ds es : List Nat} {elem name : List UInt8} {comps rest : List (List UInt8)} {lead trail : Bool}
  {d : Slot} {path : List UInt8} {k : Nat} {o : Option Slot}

theorem Volume.Gives.returns {s : Server} (hg : s.vol.bpb.Geometry) (h : s.vol.Gives k path o) : s.Returns path 0 o := by
  obtain ⟨cur, ws, hst, hl⟩ := h
  exact Finds.returns hg hst ⟨k, hl⟩

/-- Behind the components passed, the search comes to the first slot with the next name if it stops there. -/
theorem Passes.gives (hg : v.bpb.Geometry) (hroot : IsChain v v.bpb.rootCluster.toNat ds) (hne : ds ≠ [])
    (h : Passes v ds comps es) (hcomp : ∀ y ∈ comps ++ elem :: rest, Component y)
    (hstop : ∀ d, v.firstNamed es elem = some d → v.attr d = kDirectory → rest = []) :
    v.Gives ((comps.length + 1) * (v.bpb.top + 2)) (rooted lead (spell trail (comps ++ elem :: rest)))
      (v.firstNamed es elem) := by
  obtain ⟨cur, hst, hat⟩ := @At.start v ds _ lead trail 0 (by simp) hcomp
    (by rw [if_pos (.inr rfl)]; exact hroot.head)
  obtain ⟨hes, hesne, cur', hat', hgo⟩ := h.goesOn hg hroot.self hne (by simp) hcomp hat
  obtain ⟨c, cs, rfl⟩ := List.exists_cons_of_ne_nil hesne
  obtain ⟨rest', heq, -, hlast⟩ := hat'.comps
  obtain ⟨helem, rfl⟩ := List.cons.inj heq
  have hround : lookup v (v.bpb.top + 2) cur' = some ([], v.firstNamed (c :: cs) elem) := by
    cases hf : v.firstNamed (c :: cs) elem with
    | none => exact lookup_none hg hes hat'.dir (by rw [← helem]; exact hf)
    | some d =>
      refine lookup_here hg hes hat'.dir (by rw [← helem]; exact hf) fun hd => ?_
      rw [hlast, hstop d hf hd.1] at hd
      simp at hd
  obtain ⟨ws, hws⟩ := hgo _ _ hround
  refine ⟨cur, ws, hst, ?_⟩
  rwa [Nat.add_comm, ← Nat.succ_mul] at hws

theorem spell_snoc : ∀ {comps : List (List UInt8)}, comps ≠ [] →
    spell false (comps ++ [name]) = spell false comps ++ 0x2f :: name
  | [elem], _ => by simp [spell]
  | elem :: next :: comps, _ => by
    rw [List.cons_append, spell_cons, if_neg (by simp), spell_snoc (List.cons_ne_nil next comps),
      @spell_cons _ _ (next :: comps), if_neg (by simp), List.append_assoc, List.cons_append]

/-- `CreateFile` on the path of a file in the root directory. -/
theorem parentOf_root (hname : Component name) : ParentOf v (rooted lead (spell false [name])) v.bpb.rootCluster.toNat
    name := by
  have hspell : spell false [name] = name := by simp [spell]
  rw [hspell]
  cases lead with
  | false => exact .plain (strrchr_none hname.noSlash)
  | true => exact .root (strrchr_concat (a := []) hname.noSlash) hname.nonempty

/-- In another directory: where the search for its path ends. -/
theorem parentOf_dir (hcomp : ∀ y ∈ comps, Component y) (hne : comps ≠ []) (hname : Component name)
    (h : v.Gives k (rooted lead (spell false comps)) (some d)) :
    ParentOf v (rooted lead (spell false (comps ++ [name]))) (v.first d) name := by
  obtain ⟨cur, ws, hst, hl⟩ := h
  have hsplit : rooted lead (spell false (comps ++ [name])) = rooted lead (spell false comps) ++ 0x2f :: name := by
    rw [spell_snoc hne]
    cases lead <;> rfl
  have hparent : rooted lead (spell false comps) ≠ [] := by
    obtain ⟨elem, rest, rfl⟩ := List.exists_cons_of_ne_nil hne
    cases lead with
    | true => exact List.cons_ne_nil _ _
    | false => exact spell_ne_nil (hcomp elem (by simp))
  refine .dir ?_ hname.nonempty hparent ⟨k, cur, hst, hl⟩
  rw [hsplit]
  exact strrchr_concat hname.noSlash

end Path

/-! ## What the search sees of the new entry -/

theorem name83_length : ∀ {name buf : List UInt8} {i : Nat}, (name83 name i buf).length = buf.length
  | [], _, _ => rfl
  | ch :: rest, buf, i => by
    rw [name83]
    split
    · split
      · exact name83_length
      · rw [name83_length, List.length_set]
    · rfl

theorem nameIsEqual_iff {m : Mem} {a : Nat} {name : List UInt8} :
    nameIsEqual m a name = true ↔ ∀ j < 11, m (a + j) = (name83 name 0 (blanks 11)).getD j 0 := by
  unfold nameIsEqual
  rw [List.all_eq_true]
  refine ⟨fun h j hj => ?_, fun h j hj => ?_⟩
  · simpa [entryName, blanks] using h j (List.mem_range.mpr hj)
  · simpa [entryName, blanks] using h j (List.mem_range.mp hj)

section Placed

variable {v v1 : Volume} {ds ds' : List Nat} {e x : Slot} {name : List UInt8}

/-- The entry has its name if the two readings of the name agree. -/
theorem Placed.named (hg : v.bpb.Geometry) (hname : Component name) (h : Placed v v1 ds ds' e name) :
    v1.isNamed name e = true ↔ Fits83 name := by
  obtain ⟨post, hsplit⟩ := h.slots
  obtain ⟨hin, -⟩ := Volume.mem_slots.mp (show e ∈ v.slots ds' by rw [hsplit]; simp)
  have hlen : (shortName name).length = 11 := by
    unfold shortName
    split
    · rw [List.length_append, padded_length, padded_length]
    · rw [List.length_append, padded_length, padded_length]
  have hlen' : (name83 name 0 (blanks 11)).length = 11 := name83_length.trans (List.length_replicate ..)
  rw [← shortName_eq_name83 hname.fits, Volume.isNamed, nameIsEqual_iff]
  have hbyte : ∀ j < 11, v1.cluster e.1 (32 * e.2 + j) = (shortName name).getD j 0x20 := by
    intro j hj
    rw [Volume.cluster_eq (by rwa [h.bpb]) (h.chain.valid _ hin), h.name j hj]
  constructor
  · intro heq
    refine List.ext_getElem (by rw [hlen, hlen']) fun j hj hj' => ?_
    have hb := heq j (by omega)
    rw [hbyte j (by omega), List.getD_eq_getElem _ _ hj, List.getD_eq_getElem _ _ hj'] at hb
    exact hb
  · intro heq j hj
    rw [hbyte j hj, heq, List.getD_eq_getElem _ _ (by omega), List.getD_eq_getElem _ _ (by omega)]

/-- A slot ahead of it is as before. -/
theorem Placed.ahead_named (hg : v.bpb.Geometry) (h : Placed v v1 ds ds' e name) {c : Nat} (hds : IsChain v c ds)
    (hx : x ∈ v.ahead ds) : v1.isNamed name x = v.isNamed name x := by
  obtain ⟨hin, hi⟩ := Volume.mem_slots.mp (Volume.ahead_subset hx)
  have hval := hds.valid _ hin
  have hend := Server.index_bound hi
  refine nameIsEqual_congr fun j hj => ?_
  rw [Volume.cluster_eq (by rwa [h.bpb]) (by rwa [h.bpb]), Volume.cluster_eq hg hval]
  refine h.bytes _ hval (hds.linked.not_free hds.valid _ hin) _ (by omega) fun ⟨h1, h2, h3⟩ => h.new ?_
  have hxe : x = e := Prod.ext h1 (by omega)
  exact hxe ▸ hx

/-- **The new entry is the first with its name** if it has it, and none ahead of it has. -/
theorem Placed.firstNamed (hg : v.bpb.Geometry) (hname : Component name) (h : Placed v v1 ds ds' e name) {c : Nat}
    (hds : IsChain v c ds) :
    v1.firstNamed ds' name = some e ↔ Fits83 name ∧ ∀ x ∈ v.ahead ds, v.isNamed name x = false := by
  obtain ⟨post, hsplit⟩ := h.slots
  have hslots : v1.slots ds' = v.ahead ds ++ e :: post := by
    rw [← hsplit, Volume.slots, Volume.slots, h.bpb]
  rw [Volume.firstNamed, hslots, ← h.named hg hname]
  constructor
  · intro hfind
    refine ⟨List.find?_some hfind, fun x hx => ?_⟩
    rw [← h.ahead_named hg hds hx]
    rw [List.find?_append] at hfind
    cases hpre : (v.ahead ds).find? (v1.isNamed name) with
    | some y =>
      rw [hpre, Option.some_or, Option.some.injEq] at hfind
      exact absurd (List.mem_of_find?_eq_some hpre) (hfind ▸ h.new)
    | none => simpa using List.find?_eq_none.mp hpre x hx
  · rintro ⟨hnamed, hpre⟩
    refine List.find?_eq_some_iff_append.mpr ⟨hnamed, _, post, rfl, fun x hx => ?_⟩
    rw [h.ahead_named hg hds hx, hpre x hx]
    rfl

end Placed

/-! ## Opening again -/

namespace Server

variable {s t : Server} {k fuel : Nat} {path : List UInt8} {e : Slot} {o : Option Slot}

theorem findFile_gives (hg : t.vol.bpb.Geometry) (h : t.vol.Gives k path o) (hk : k ≤ fuel) :
    ∃ t' p, t.findFile fuel path 0 = some (t', o.map Prod.snd, p) ∧ t'.vol = t.vol := by
  obtain ⟨cur, ws, hst, hl⟩ := h
  have hans := @findLoop_lookup fuel t cur hg
  rw [lookup_mono hl hk] at hans
  rw [findFile, hst]
  cases o with
  | none =>
    obtain ⟨t', p, ht, hv, -⟩ := hans
    exact ⟨t', p, ht, hv⟩
  | some e =>
    obtain ⟨t', p, ht, hfound⟩ := hans
    exact ⟨t', p, ht, hfound.vol⟩

/-- A path that is found is never created. -/
theorem reopen_found : ∀ {n : Nat} {t : Server}, t.vol.bpb.Geometry → t.vol.Gives k path (some e) → k ≤ fuel →
    ∃ t', t.reopen fuel path n = some (t', [])
  | 0, t, _, _, _ => ⟨t, rfl⟩
  | n + 1, t, hg, h, hk => by
    obtain ⟨t1, p, ht1, hv⟩ := findFile_gives hg h hk
    have hopen : ∃ r, t.openFile fuel path O_CREAT = some (t1, r, none) := by
      unfold openFile
      rw [ht1]
      by_cases hattr : entryAttr t1.clusterBuf (32 * e.2) = kDirectory
      · exact ⟨_, if_pos hattr⟩
      · exact ⟨_, if_neg hattr⟩
    obtain ⟨r, hr⟩ := hopen
    obtain ⟨t2, ht2⟩ := reopen_found (n := n) (t := t1) (by rwa [hv]) (by rwa [hv]) hk
    refine ⟨t2, ?_⟩
    rw [reopen, hr, Option.bind_some]
    dsimp only
    rw [ht2]
    rfl

/-- Behind the open that has created the file. -/
theorem reopen_created {n : Nat} {t s1 : Server} (hmiss : ∃ p, s.findFile fuel path 0 = some (t, none, p))
    (hcreate : t.createFile fuel path = some (s1, .ok e)) (hg : s1.vol.bpb.Geometry) (h : s1.vol.Gives k path (some e))
    (hk : k ≤ fuel) : ∃ s', s.reopen fuel path (n + 1) = some (s', [e]) := by
  obtain ⟨p, hmiss⟩ := hmiss
  have hopen : s.openFile fuel path O_CREAT = some (s1, .open path true false, some e) := by
    unfold openFile
    rw [hmiss]
    dsimp only
    rw [if_neg (by decide), hcreate]
    rfl
  obtain ⟨s', hs'⟩ := reopen_found (n := n) hg h hk
  refine ⟨s', ?_⟩
  rw [reopen, hopen, Option.bind_some]
  dsimp only
  rw [hs']
  rfl

end Server

/-- `CreateFile` succeeds, given time, and `FindFile` on the same path then returns the entry. -/
def Refound (s : Server) (path : List UInt8) : Prop := ∃ F, ∀ fuel ≥ F, ∃ s1 e,
  s.createFile fuel path = some (s1, .ok e) ∧ s1.Returns path 0 (some e)

/-- Opening the path any number of times with `O_CREAT` creates at most one entry. -/
def CreatedOnce (s : Server) (path : List UInt8) : Prop := ∃ F, ∀ fuel ≥ F, ∀ n, ∃ s' created,
  s.reopen fuel path n = some (s', created) ∧ created.length ≤ 1

section Refound

variable {s : Server} {rs ds cs : List Nat} {lead : Bool} {comps : List (List UInt8)} {name : List UInt8} {way : List Slot}
  {c : Nat}

/-- In a directory that the search of the new volume comes to as well. -/
theorem refound_plain (hwf : WellFormed s.vol) (hcomps : ∀ y ∈ comps ++ [name], Component y)
    (hp : ParentOf s.vol (rooted lead (spell false (comps ++ [name]))) c name) (hds : IsChain s.vol c ds) (hne : ds ≠ [])
    (hplace : HasPlace s.vol ds) (hroot : IsChain s.vol s.vol.bpb.rootCluster.toNat rs) (hrne : rs ≠ [])
    (hpass : Passes s.vol rs comps ds)
    (hway : ∀ v1 ds' e, Placed s.vol v1 ds ds' e name →
      ∃ rs', IsChain v1 s.vol.bpb.rootCluster.toNat rs' ∧ rs' ≠ [] ∧ Passes v1 rs' comps ds') :
    Refound s (rooted lead (spell false (comps ++ [name]))) ∧ CreatedOnce s (rooted lead (spell false (comps ++ [name]))) ↔
      Fits83 name ∧ ∀ x ∈ s.vol.ahead ds, s.vol.isNamed name x = false := by
  have hg := hwf.geometry
  have hname : Component name := hcomps name (by simp)
  obtain ⟨F, hF⟩ := Server.createFile_placed hg hp hds hne hplace
  have hgives : ∀ (s1 : Server) (ds' : List Nat) (e : Slot), Placed s.vol s1.vol ds ds' e name →
      s1.vol.Gives ((comps.length + 1) * (s.vol.bpb.top + 2)) (rooted lead (spell false (comps ++ [name])))
        (s1.vol.firstNamed ds' name) := by
    intro s1 ds' e h
    obtain ⟨rs', hrs', hne', hpass'⟩ := hway _ _ _ h
    rw [← h.bpb] at hrs' ⊢
    exact hpass'.gives (by rwa [h.bpb]) hrs' hne' hcomps fun _ _ _ => rfl
  constructor
  · rintro ⟨⟨F', hF'⟩, -⟩
    obtain ⟨s1, e, hrun, hret⟩ := hF' (max F F') (Nat.le_max_right ..)
    obtain ⟨s1', e', ds', hrun', hplaced⟩ := hF (max F F') (Nat.le_max_left ..) s rfl
    rw [hrun] at hrun'
    obtain ⟨rfl, he⟩ := Prod.mk.inj (Option.some.inj hrun')
    obtain rfl := Except.ok.inj he
    have hfirst := ((hgives _ _ _ hplaced).returns (by rwa [hplaced.bpb])).unique hret
    exact (hplaced.firstNamed hg hname hds).mp hfirst
  · intro hcond
    refine ⟨⟨F, fun fuel hf => ?_⟩, ⟨max F ((comps.length + 1) * (s.vol.bpb.top + 2)), fun fuel hf n => ?_⟩⟩
    · obtain ⟨s1, e, ds', hrun, hplaced⟩ := hF fuel hf s rfl
      have hret := (hgives _ _ _ hplaced).returns (by rwa [hplaced.bpb])
      rw [(hplaced.firstNamed hg hname hds).mpr hcond] at hret
      exact ⟨s1, e, hrun, hret⟩
    · cases n with
      | zero => exact ⟨s, [], rfl, Nat.zero_le _⟩
      | succ n =>
        have hnow := @Passes.gives s.vol rs ds name comps [] lead false hg hroot hrne hpass hcomps fun _ _ _ => rfl
        cases hfirst : s.vol.firstNamed ds name with
        | some x =>
          rw [hfirst] at hnow
          obtain ⟨s', hs'⟩ := Server.reopen_found (n := n + 1) hg hnow (le_trans (Nat.le_max_right ..) hf)
          exact ⟨s', [], hs', Nat.zero_le _⟩
        | none =>
          rw [hfirst] at hnow
          obtain ⟨t, p, ht, hv⟩ := @Server.findFile_gives _ _ fuel _ _ hg hnow (by omega)
          obtain ⟨s1, e, ds', hrun, hplaced⟩ := hF fuel (by omega) t hv
          have hthen := hgives _ _ _ hplaced
          rw [(hplaced.firstNamed hg hname hds).mpr hcond] at hthen
          obtain ⟨s', hs'⟩ := Server.reopen_created (n := n) ⟨p, ht⟩ hrun (by rwa [hplaced.bpb]) hthen (by omega)
          exact ⟨s', [e], hs', Nat.le_refl 1⟩

/-- The way to the stop is as before when an entry is placed behind it. -/
theorem StopsAt.kept {v v1 : Volume} {front : List (List UInt8)} {elem : List UInt8} {ds ds' : List Nat} {d e : Slot}
    {n : Nat}
    (hwf : WellFormed v) (hstop : StopsAt v rs front elem ds d cs) (hroot : DirAt v 0 rs) (hdir : DirAt v n ds)
    (hn : n = front.length) (h : Placed v v1 cs ds' e name) :
    IsChain v1 v.bpb.rootCluster.toNat rs ∧ Passes v1 rs front ds ∧ KeptDir v v1 ds := by
  have hkept := h.kept hwf (.sub hdir hstop.live hstop.bit hstop.chain)
  obtain ⟨way, hlead, hplain⟩ := hstop.leads
  refine ⟨?_, hlead.passes hwf hkept hroot (by omega) hplain, hkept n (by omega) _ hdir⟩
  have hchain := (hkept 0 (by omega) _ hroot).chain
  cases hroot with
  | root hr => rwa [hr.head] at hchain

/-- Not in a directory whose attributes are more than `kDirectory`. -/
theorem not_refound {front rest : List (List UInt8)} {elem : List UInt8} {d : Slot} {ds : List Nat} {n : Nat}
    (hwf : WellFormed s.vol) (hcomps : ∀ y ∈ front ++ elem :: rest ++ [name], Component y)
    (hp : ParentOf s.vol (rooted lead (spell false (front ++ elem :: rest ++ [name]))) (s.vol.first d) name)
    (hstop : StopsAt s.vol rs front elem ds d cs) (hroot : DirAt s.vol 0 rs) (hdir : DirAt s.vol n ds)
    (hn : n = front.length) (hattr : s.vol.attr d ≠ kDirectory) (hplace : HasPlace s.vol cs) :
    ¬ Refound s (rooted lead (spell false (front ++ elem :: rest ++ [name]))) := by
  have hg := hwf.geometry
  have hsub : DirAt s.vol (n + 1) cs := .sub hdir hstop.live hstop.bit hstop.chain
  obtain ⟨F, hF⟩ := Server.createFile_placed hg hp hstop.chain (hwf.directory_ne_nil hsub.directory) hplace
  rintro ⟨F', hF'⟩
  obtain ⟨s1, e, hrun, hret⟩ := hF' (max F F') (Nat.le_max_right ..)
  obtain ⟨s1', e', ds', hrun', hplaced⟩ := hF (max F F') (Nat.le_max_left ..) s rfl
  rw [hrun] at hrun'
  obtain ⟨rfl, he⟩ := Prod.mk.inj (Option.some.inj hrun')
  obtain rfl := Except.ok.inj he
  -- the way up to `d` is as before, so the search stops there
  obtain ⟨hrootc, hpass, hkd⟩ := hstop.kept hwf hroot hdir hn hplaced
  have hmem := Volume.firstNamed_mem hstop.first
  have hfirst : s1.vol.firstNamed ds elem = some d := by rw [hkd.firstNamed hg, hstop.first]
  have hgive := @Passes.gives s1.vol rs ds elem front (rest ++ [name]) lead false (by rwa [hplaced.bpb])
    (by rwa [hplaced.bpb]) (hwf.directory_ne_nil hroot.directory) hpass (by simpa using hcomps) fun x hx hxa => by
      rw [hfirst] at hx
      obtain rfl := Option.some.inj hx
      rw [hkd.attr hg hmem] at hxa
      exact absurd hxa hattr
  rw [hfirst] at hgive
  have hreturns := hgive.returns (by rwa [hplaced.bpb])
  rw [show front ++ elem :: (rest ++ [name]) = front ++ elem :: rest ++ [name] by simp] at hreturns
  have hde := Option.some.inj (hreturns.unique hret)
  have hin := (Volume.mem_slots.mp hmem).1
  rw [hde] at hin
  obtain ⟨_, _, rfl, hc, _⟩ := hdir.chain hwf
  rcases hplaced.home with hm | hz
  · exact hdir.apart hwf hsub (Nat.lt_succ_self n) hin hm
  · exact hc.linked.not_free hc.valid _ hin hz

end Refound

/-! ### The file `b`, and a name that is too long for its base -/

theorem component_letter {c : UInt8} (h : c ≠ 0x2f) : Component [c] :=
  ⟨by simp, by simpa using Ne.symm h, by simp⟩

/-- `abcdefghij`: `SetFileName` cuts the base at eight characters, `NameIsEqual` reads on into the extension. -/
def longName : List UInt8 := [0x61, 0x62, 0x63, 0x64, 0x65, 0x66, 0x67, 0x68, 0x69, 0x6a]

/-- The server after creating it. -/
def longCreated : Server := ((twoBytesServer.createFile 9 longName).map Prod.fst).getD twoBytesServer

end KinOS.Fs
