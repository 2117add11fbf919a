import KinOS.Fs.Tree
import KinOS.Fs.PathElements

/-!
# `FindFile` as a walk through directories

On the chain of a directory `FindFile` comes to the slots of one cluster after the other, so what it takes for a component is
the first slot with the name (`lookup_chain`), whatever stands before it: end markers, deleted entries, long names and volume
labels. `Walk` is the walk that a path stands for, through live entries only.

| here | there |
| --- | --- |
| `Volume.firstNamed` | the two loops of `FindFile` (`servers/fs/fs.cpp:166-188`) |
| `spell`             | a path, as the clients of the file server write it |
-/

namespace KinOS.Fs

open Bytes

/-! ## The slots of a directory -/

/-- The slots of a directory in the order of its chain. -/
def Volume.slots (v : Volume) (ds : List Nat) : List Slot :=
  ds.flatMap fun c => (List.range v.bpb.entriesPerCluster).map fun i => (c, i)

def Volume.isNamed (v : Volume) (elem : List UInt8) (e : Slot) : Bool := nameIsEqual (v.cluster e.1) (32 * e.2) elem

/-- The first slot with the name, live or not. -/
def Volume.firstNamed (v : Volume) (ds : List Nat) (elem : List UInt8) : Option Slot := (v.slots ds).find? (v.isNamed elem)

theorem Volume.mem_slots {v : Volume} {ds : List Nat} {e : Slot} :
    e ∈ v.slots ds ↔ e.1 ∈ ds ∧ e.2 < v.bpb.entriesPerCluster := by
  unfold Volume.slots
  rw [List.mem_flatMap]
  constructor
  · rintro ⟨c, hc, he⟩
    obtain ⟨i, hi, rfl⟩ := List.mem_map.mp he
    exact ⟨hc, List.mem_range.mp hi⟩
  · rintro ⟨hc, hi⟩
    exact ⟨e.1, hc, List.mem_map.mpr ⟨e.2, List.mem_range.mpr hi, rfl⟩⟩

theorem Volume.slots_append {v : Volume} {ds cs : List Nat} : v.slots (ds ++ cs) = v.slots ds ++ v.slots cs :=
  List.flatMap_append

theorem Volume.firstNamed_cons {v : Volume} {c : Nat} {cs : List Nat} {elem : List UInt8} :
    v.firstNamed (c :: cs) elem =
      ((scanEntries (v.cluster c) v.bpb.entriesPerCluster elem).map fun i => (c, i)).or (v.firstNamed cs elem) := by
  unfold Volume.firstNamed Volume.slots scanEntries
  rw [List.flatMap_cons, List.find?_append, List.find?_map]
  rfl

theorem Volume.firstNamed_some {v : Volume} {ds : List Nat} {elem : List UInt8} {e : Slot}
    (h : v.firstNamed ds elem = some e) :
    e.1 ∈ ds ∧ e.2 < v.bpb.entriesPerCluster ∧ v.isNamed elem e = true := by
  obtain ⟨h1, h2⟩ := Volume.mem_slots.mp (List.mem_of_find?_eq_some h)
  exact ⟨h1, h2, List.find?_some h⟩

/-! ## The loop on a chain -/

/-- What the loop of `FindFile` comes to, given time. -/
def Finds (v : Volume) (cur : Cursor) (r : List Slot × Option Slot) : Prop := ∃ fuel, lookup v fuel cur = some r

/-- **The loop takes the first slot with the name.** -/
theorem lookup_chain {v : Volume} (hg : v.bpb.Geometry) : ∀ {cs : List Nat} {c : Nat} {cur : Cursor}, Linked v (c :: cs) →
    (∀ d ∈ c :: cs, v.bpb.Valid d) → cur.dir = c → ∃ k ≤ cs.length + 2, ∀ fuel, lookup v (fuel + k) cur =
      match v.firstNamed (c :: cs) cur.elem with
      | none => some ([], none)
      | some e =>
        if v.attr e = kDirectory ∧ cur.pathLast = false then
          ((findStart v.bpb cur.nextPath (v.first e)).bind (lookup v fuel)).map fun r => (e :: r.1, r.2)
        else some ([], some e) := by
  intro cs
  induction cs with
  | nil =>
    intro c cur hl hv hdir
    have hne : cur.dir ≠ 0x0fffffff := by
      rw [hdir]
      exact ((hv c (by simp)).ne hg).2
    rw [Volume.firstNamed_cons]
    cases hs : scanEntries (v.cluster c) v.bpb.entriesPerCluster cur.elem with
    | some i =>
      refine ⟨1, by omega, fun fuel => ?_⟩
      rw [lookup, if_neg hne, hdir]
      simp only [hs, Option.map_some, Option.some_or]
    | none =>
      have hend : v.next c = 0x0fffffff := if_pos hl
      refine ⟨2, by omega, fun fuel => ?_⟩
      rw [lookup, if_neg hne, hdir]
      simp only [hs, Option.map_none, Option.none_or, hend]
      rw [lookup, if_pos rfl]
      rfl
  | cons d cs ih =>
    intro c cur hl hv hdir
    have hne : cur.dir ≠ 0x0fffffff := by
      rw [hdir]
      exact ((hv c (by simp)).ne hg).2
    have hvs : ∀ x ∈ d :: cs, v.bpb.Valid x := fun x hx => hv x (List.mem_cons_of_mem _ hx)
    have hnext : v.next c = d := hl.starts_next hg hvs
    rw [Volume.firstNamed_cons]
    cases hs : scanEntries (v.cluster c) v.bpb.entriesPerCluster cur.elem with
    | some i =>
      refine ⟨1, by omega, fun fuel => ?_⟩
      rw [lookup, if_neg hne, hdir]
      simp only [hs, Option.map_some, Option.some_or]
    | none =>
      obtain ⟨k, hle, hk⟩ := @ih d { cur with dir := d } hl.2 hvs rfl
      refine ⟨k + 1, by simp only [List.length_cons]; omega, fun fuel => ?_⟩
      rw [← Nat.add_assoc, lookup, if_neg hne, hdir]
      simp only [hs, hnext, Option.map_none, Option.none_or]
      exact hk fuel

section Chain

variable {v : Volume} {c : Nat} {cs : List Nat} {cur : Cursor} {e : Slot}

theorem lookup_none (hg : v.bpb.Geometry) (hc : IsChain v c (c :: cs)) (hdir : cur.dir = c)
    (h : v.firstNamed (c :: cs) cur.elem = none) : lookup v (v.bpb.top + 2) cur = some ([], none) := by
  obtain ⟨k, hle, hk⟩ := lookup_chain hg hc.linked hc.valid hdir
  have hlen := hc.length_le
  rw [List.length_cons] at hlen
  rw [h] at hk
  exact lookup_mono (hk 0) (by omega)

theorem lookup_here (hg : v.bpb.Geometry) (hc : IsChain v c (c :: cs)) (hdir : cur.dir = c)
    (h : v.firstNamed (c :: cs) cur.elem = some e) (hstop : ¬ (v.attr e = kDirectory ∧ cur.pathLast = false)) :
    lookup v (v.bpb.top + 2) cur = some ([], some e) := by
  obtain ⟨k, hle, hk⟩ := lookup_chain hg hc.linked hc.valid hdir
  have hlen := hc.length_le
  rw [List.length_cons] at hlen
  rw [h] at hk
  refine lookup_mono ((hk 0).trans ?_) (by omega)
  exact if_neg hstop

theorem lookup_enter (hg : v.bpb.Geometry) (hc : IsChain v c (c :: cs)) (hdir : cur.dir = c)
    (h : v.firstNamed (c :: cs) cur.elem = some e) (hattr : v.attr e = kDirectory) (hlast : cur.pathLast = false)
    {next : Cursor} (hst : findStart v.bpb cur.nextPath (v.first e) = some next) {fuel : Nat} {r : List Slot × Option Slot}
    (hr : lookup v fuel next = some r) : lookup v (fuel + (v.bpb.top + 2)) cur = some (e :: r.1, r.2) := by
  obtain ⟨k, hle, hk⟩ := lookup_chain hg hc.linked hc.valid hdir
  have hlen := hc.length_le
  rw [List.length_cons] at hlen
  rw [h] at hk
  refine lookup_mono ((hk fuel).trans ?_) (by omega)
  dsimp only
  rw [if_pos ⟨hattr, hlast⟩, hst, Option.bind_some, hr]
  rfl

theorem finds_none (hg : v.bpb.Geometry) (hc : IsChain v c (c :: cs)) (hdir : cur.dir = c)
    (h : v.firstNamed (c :: cs) cur.elem = none) : Finds v cur ([], none) :=
  ⟨_, lookup_none hg hc hdir h⟩

theorem finds_here (hg : v.bpb.Geometry) (hc : IsChain v c (c :: cs)) (hdir : cur.dir = c)
    (h : v.firstNamed (c :: cs) cur.elem = some e) (hstop : ¬ (v.attr e = kDirectory ∧ cur.pathLast = false)) :
    Finds v cur ([], some e) :=
  ⟨_, lookup_here hg hc hdir h hstop⟩

theorem finds_enter (hg : v.bpb.Geometry) (hc : IsChain v c (c :: cs)) (hdir : cur.dir = c)
    (h : v.firstNamed (c :: cs) cur.elem = some e) (hattr : v.attr e = kDirectory) (hlast : cur.pathLast = false)
    {next : Cursor} (hst : findStart v.bpb cur.nextPath (v.first e) = some next) {r : List Slot × Option Slot}
    (hr : Finds v next r) : Finds v cur (e :: r.1, r.2) := by
  obtain ⟨fuel, hr⟩ := hr
  exact ⟨_, lookup_enter hg hc hdir h hattr hlast hst hr⟩

end Chain

/-! ## Paths -/

/-- A component that `FindFile` can hold. -/
structure Component (elem : List UInt8) : Prop where
  nonempty : elem ≠ []
  noSlash : 0x2f ∉ elem
  fits : elem.length ≤ 12

/-- The components with a slash between them, and behind them if `trail`. -/
def spell (trail : Bool) : List (List UInt8) → List UInt8
  | [] => []
  | [elem] => elem ++ if trail then [0x2f] else []
  | elem :: comps => elem ++ 0x2f :: spell trail comps

section Spell

variable {trail : Bool} {elem : List UInt8} {comps : List (List UInt8)}

theorem Component.head (h : Component elem) (rest : List UInt8) : (elem ++ rest).head? ≠ some 0x2f := by
  obtain ⟨c, elem', rfl⟩ := List.exists_cons_of_ne_nil h.nonempty
  intro hc
  refine h.noSlash ?_
  rw [List.cons_append, List.head?_cons, Option.some.injEq] at hc
  simp [hc]

theorem nextPathElement_of_not_mem {path : List UInt8} (h : 0x2f ∉ path) : nextPathElement path = (path, none) := by
  rcases nextPathElement_split path with ⟨-, heq⟩ | ⟨e, rest, hp, -, -⟩
  · exact heq
  · refine absurd ?_ h
    rw [hp]
    simp

theorem nextPathElement_slash {rest : List UInt8} (h : 0x2f ∉ elem) :
    nextPathElement (elem ++ 0x2f :: rest) = (elem, some rest) := by
  have hno : ∀ c ∈ elem, (decide (c ≠ 0x2f)) = true := by
    intro c hc
    rw [decide_eq_true_eq]
    rintro rfl
    exact h hc
  rw [nextPathElement, if_pos (by simp), List.takeWhile_append_of_pos hno, List.dropWhile_append_of_pos hno]
  simp

theorem spell_cons : spell trail (elem :: comps) =
    if comps = [] then elem ++ (if trail then [0x2f] else []) else elem ++ 0x2f :: spell trail comps := by
  cases comps with
  | nil => rfl
  | cons c comps => rw [if_neg (by simp), spell]; simp

theorem spell_ne_nil (he : Component elem) : spell trail (elem :: comps) ≠ [] := by
  rw [spell_cons]
  intro h
  split at h
  · exact he.nonempty (List.append_eq_nil_iff.mp h).1
  · exact he.nonempty (List.append_eq_nil_iff.mp h).1

theorem nextPathElement_spell (he : Component elem) : nextPathElement (spell trail (elem :: comps)) =
    (elem, if comps = [] ∧ trail = false then none else some (spell trail comps)) := by
  rw [spell_cons]
  by_cases hc : comps = []
  · subst hc
    cases trail with
    | false =>
      have h := nextPathElement_of_not_mem he.noSlash
      simpa using h
    | true =>
      have h := @nextPathElement_slash _ [] he.noSlash
      simpa [spell] using h
  · rw [if_neg hc, nextPathElement_slash he.noSlash, if_neg (fun h => hc h.1)]

/-- The path with a leading slash, or without one. -/
def rooted (lead : Bool) (path : List UInt8) : List UInt8 := if lead then 0x2f :: path else path

theorem spell_head (he : Component elem) : (spell trail (elem :: comps)).head? ≠ some 0x2f := by
  rw [spell_cons]
  split
  · exact he.head _
  · exact he.head _

theorem skipSlash_rooted (lead : Bool) (he : Component elem) :
    skipSlash (rooted lead (spell trail (elem :: comps))) = spell trail (elem :: comps) := by
  cases lead with
  | true => rfl
  | false => exact skipSlash_of_ne (spell_head he)

/-- A call of `FindFile` on such a path. -/
theorem findStart_spell {b : BPB} {dir : Nat} (lead : Bool) (he : Component elem) (hcs : ∀ x ∈ comps, Component x) :
    findStart b (rooted lead (spell trail (elem :: comps))) dir = some
      { dir := if lead = true ∨ dir = 0 then b.rootCluster.toNat else dir
        elem
        nextPath := spell trail comps
        pathLast := comps = []
        postSlash := (comps ≠ [] ∨ trail = true : Bool) } := by
  have hskip := @skipSlash_rooted trail _ comps lead he
  have hnext := @nextPathElement_spell trail _ comps he
  have helem : elemOf (rooted lead (spell trail (elem :: comps))) = elem := by rw [elemOf, hskip, hnext]
  have hhead : (rooted lead (spell trail (elem :: comps))).head? = some 0x2f ↔ lead = true := by
    cases lead with
    | true => exact iff_of_true rfl rfl
    | false => exact iff_of_false (spell_head he) Bool.false_ne_true
  have hrest : (spell trail comps = []) ↔ comps = [] := by
    cases comps with
    | nil => exact iff_of_true rfl rfl
    | cons c comps => exact iff_of_false (spell_ne_nil (hcs c (by simp))) (by simp)
  rw [findStart_eq, helem, if_neg (Nat.not_lt.mpr he.fits), hskip, hnext]
  simp only [hhead]
  by_cases hc : comps = []
  · subst hc
    cases trail <;> simp [spell]
  · simp [hc, hrest]

end Spell

/-! ## What `FindFile` returns -/

/-- `FindFile` comes to this result, given time: no entry, or the one in this slot with its cluster in the buffer. -/
def Server.Returns (s : Server) (path : List UInt8) (dir : Nat) : Option Slot → Prop
  | none => ∃ F, ∀ fuel ≥ F, ∃ t p, s.findFile fuel path dir = some (t, none, p)
  | some e => ∃ F, ∀ fuel ≥ F, ∃ t p, s.findFile fuel path dir = some (t, some e.2, p) ∧ Found s t e

section Returns

variable {s : Server} {path : List UInt8} {dir : Nat} {cur : Cursor}

theorem Server.Returns.unique {o o' : Option Slot} (h : s.Returns path dir o) (h' : s.Returns path dir o') : o = o' := by
  cases o with
  | none =>
    obtain ⟨F, hF⟩ := h
    cases o' with
    | none => rfl
    | some e =>
      obtain ⟨F', hF'⟩ := h'
      obtain ⟨t, p, ht⟩ := hF _ (Nat.le_max_left F F')
      obtain ⟨t', p', ht', -⟩ := hF' _ (Nat.le_max_right F F')
      rw [ht] at ht'
      cases ht'
  | some e =>
    obtain ⟨F, hF⟩ := h
    cases o' with
    | none =>
      obtain ⟨F', hF'⟩ := h'
      obtain ⟨t, p, ht, -⟩ := hF _ (Nat.le_max_left F F')
      obtain ⟨t', p', ht'⟩ := hF' _ (Nat.le_max_right F F')
      rw [ht] at ht'
      cases ht'
    | some e' =>
      obtain ⟨F', hF'⟩ := h'
      obtain ⟨t, p, ht, hfound⟩ := hF _ (Nat.le_max_left F F')
      obtain ⟨t', p', ht', hfound'⟩ := hF' _ (Nat.le_max_right F F')
      rw [ht] at ht'
      obtain ⟨rfl, heq⟩ := Prod.mk.inj (Option.some.inj ht')
      have h2 : e.2 = e'.2 := Option.some.inj (Prod.mk.inj heq).1
      have h1 : e.1 = e'.1 := hfound.loaded.num.symm.trans hfound'.loaded.num
      rw [Prod.ext h1 h2]

/-- What the search on the volume comes to is returned. -/
theorem Finds.returns (hg : s.vol.bpb.Geometry) (hst : findStart s.vol.bpb path dir = some cur)
    {r : List Slot × Option Slot} (h : Finds s.vol cur r) : s.Returns path dir r.2 := by
  obtain ⟨F, hF⟩ := h
  have hans : ∀ fuel ≥ F, Server.Answers s (some r) (s.findFile fuel path dir) := by
    intro fuel hf
    have ha := @Server.findLoop_lookup fuel s cur hg
    rw [lookup_mono hF hf] at ha
    rw [Server.findFile, hst]
    exact ha
  obtain ⟨ds, o⟩ := r
  cases o with
  | none =>
    refine ⟨F, fun fuel hf => ?_⟩
    obtain ⟨t, p, ht, -⟩ := hans fuel hf
    exact ⟨t, p, ht⟩
  | some e =>
    refine ⟨F, fun fuel hf => ?_⟩
    obtain ⟨t, p, ht, hfound⟩ := hans fuel hf
    exact ⟨t, p, ht, hfound⟩

end Returns

/-! ## Directories and their depth -/

/-- A directory this many steps below the root. -/
inductive DirAt (v : Volume) : Nat → List Nat → Prop
  | root {ds : List Nat} : IsChain v v.bpb.rootCluster.toNat ds → DirAt v 0 ds
  | sub {n : Nat} {ds cs : List Nat} {d : Slot} : DirAt v n ds → LiveIn v ds d → v.attr d &&& 0x10 ≠ 0 →
      IsChain v (v.first d) cs → DirAt v (n + 1) cs

theorem DirAt.directory {v : Volume} {n : Nat} {ds : List Nat} (h : DirAt v n ds) : Directory v ds := by
  induction h with
  | root h => exact .root h
  | sub _ hin hattr hc ih => exact .sub ih hin hattr hc

theorem Directory.dirAt {v : Volume} {ds : List Nat} (h : Directory v ds) : ∃ n, DirAt v n ds := by
  induction h with
  | root h => exact ⟨0, .root h⟩
  | sub _ hin hattr hc ih =>
    obtain ⟨n, hn⟩ := ih
    exact ⟨n + 1, .sub hn hin hattr hc⟩

/-- **Directories of different depths share no cluster.** -/
theorem DirAt.apart {v : Volume} (hwf : WellFormed v) : ∀ {n m : Nat} {ds cs : List Nat}, DirAt v n ds → DirAt v m cs →
    n < m → ds.Disjoint cs
  | 0, m + 1, ds, cs, .root hds, .sub hd hin _ hcs, _ => hwf.rootApart ⟨_, hd.directory, hin⟩ hds hcs
  | n + 1, m + 1, ds, cs, .sub hd hin _ hds, .sub hd' hin' _ hcs, hlt => by
    have ih := DirAt.apart hwf hd hd' (by omega)
    refine hwf.apart ⟨_, hd.directory, hin⟩ ⟨_, hd'.directory, hin'⟩ ?_ hds hcs
    rintro rfl
    exact ih hin.mem hin'.mem

/-! ## The walk a path stands for -/

/-- The first live entry of the directory with the name. -/
structure Entry (v : Volume) (ds : List Nat) (elem : List UInt8) (e : Slot) : Prop where
  live : LiveIn v ds e
  named : v.isNamed elem e = true
  first : ∃ pre post, v.slots ds = pre ++ e :: post ∧ ∀ x ∈ pre, LiveIn v ds x → v.isNamed elem x = false

/-- **The component walk**: live directories, and a live entry at the end. -/
inductive Walk (v : Volume) : List Nat → List (List UInt8) → Slot → Prop
  | last {ds : List Nat} {elem : List UInt8} {e : Slot} : Entry v ds elem e → Walk v ds [elem] e
  | enter {ds cs : List Nat} {elem : List UInt8} {comps : List (List UInt8)} {d e : Slot} : Entry v ds elem d →
      v.attr d &&& 0x10 ≠ 0 → IsChain v (v.first d) cs → Walk v cs comps e → Walk v ds (elem :: comps) e

section Walk

variable {v : Volume} {ds cs : List Nat} {elem : List UInt8} {comps : List (List UInt8)} {d e x : Slot}

theorem Entry.of_first (h : v.firstNamed ds elem = some e) (hlive : LiveIn v ds e) : Entry v ds elem e := by
  obtain ⟨hnamed, pre, post, hsplit, hpre⟩ := List.find?_eq_some_iff_append.mp h
  exact ⟨hlive, hnamed, pre, post, hsplit, fun x hx _ => by simpa using hpre x hx⟩

theorem Entry.unique (h : Entry v ds elem e) (h' : Entry v ds elem d) : e = d := by
  obtain ⟨pre, post, hsplit, hpre⟩ := h.first
  obtain ⟨pre', post', hsplit', hpre'⟩ := h'.first
  -- the one that comes later would have the other before it
  rw [hsplit] at hsplit'
  rcases List.append_eq_append_iff.mp hsplit' with ⟨as, h1, h2⟩ | ⟨bs, h1, h2⟩
  · cases as with
    | nil => exact (List.cons.inj h2).1
    | cons a as =>
      obtain ⟨rfl, -⟩ := List.cons.inj h2
      have hf := hpre' e (by rw [h1]; simp) h.live
      rw [h.named] at hf
      cases hf
  · cases bs with
    | nil => exact (List.cons.inj h2).1.symm
    | cons b bs =>
      obtain ⟨rfl, -⟩ := List.cons.inj h2
      have hf := hpre d (by rw [h1]; simp) h'.live
      rw [h'.named] at hf
      cases hf

theorem Entry.firstNamed_ne_none (h : Entry v ds elem e) : v.firstNamed ds elem ≠ none := by
  intro hnone
  have hno := List.find?_eq_none.mp hnone e (Volume.mem_slots.mpr ⟨h.live.mem, h.live.index⟩)
  exact hno h.named

/-- Where the walk ends is not in a directory at or above the one it started in, unless it has one step. -/
theorem Walk.deeper (hwf : WellFormed v) {n m : Nat} {top : List Nat} (htop : DirAt v n top) (hd : DirAt v m ds)
    (hlt : n < m) (h : Walk v ds comps e) : e.1 ∉ top := by
  induction h generalizing m with
  | last he => exact fun hm => htop.apart hwf hd hlt hm he.live.mem
  | enter he hattr hc _ ih => exact ih (.sub hd he.live hattr hc) (by omega)

end Walk

end KinOS.Fs
