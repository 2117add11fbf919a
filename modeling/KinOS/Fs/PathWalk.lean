import KinOS.Fs.Walk
import KinOS.Fs.NewFile
import KinOS.Fs.RoundTrip

/-!
# When `FindFile` is the component walk

`FindFile` and the walk of a path part in three places. It takes the first slot with the name, live or not; it returns what
it has come to when that is no plain directory, whatever is left of the path; and a doubled slash makes it copy an empty
element and start over in the root directory. `Regular` is the condition that none of this matters on the way. Of the other
paths, `Broken` are those on which `FindFile` returns an entry that the walk does not end at, `Astray` those on which a dead
directory or a doubled slash leads it on into a directory that is not the walk's.

| here | there |
| --- | --- |
| `pathElem`, `nextPath` | `path_elem`, `next_path` (`servers/fs/fs.cpp:139-164`) |
| `Regular`, `Broken`, `Astray` | the loop of `FindFile` (`fs.cpp:166-188`, and in the same words `servers/init/init.cpp:167-189`) |
-/

namespace KinOS.Fs

open Bytes

/-! ## Paths and their components -/

/-- The components of a path. Slashes before, after and between them count for nothing. -/
def components (path : List UInt8) : List (List UInt8) := (path.splitOn 0x2f).filter (· ≠ [])

def pathElem (path : List UInt8) : List UInt8 := (nextPathElement path).1

/-- What is behind the first slash; nothing where `next_path` is a null pointer. -/
def nextPath (path : List UInt8) : List UInt8 := (nextPathElement path).2.getD []

theorem components_slash (rest : List UInt8) : components (0x2f :: rest) = components rest := by
  have hsplit := List.splitOn_append_cons_self (a := (0x2f : UInt8)) [] rest
  rw [List.nil_append] at hsplit
  rw [components, hsplit]
  rfl

theorem components_skipSlash (path : List UInt8) : components (skipSlash path) = components path := by
  unfold skipSlash
  split
  · exact (components_slash _).symm
  · rfl

/-- The path is its first element and the rest, unless that element is empty. -/
theorem components_eq (path : List UInt8) :
    components path = if pathElem path = [] then components (nextPath path)
      else pathElem path :: components (nextPath path) := by
  unfold pathElem nextPath
  rcases nextPathElement_split path with ⟨hno, heq⟩ | ⟨elem, rest, hp, hno, heq⟩
  · rw [heq, components, List.splitOn_eq_singleton hno]
    by_cases h : path = [] <;> simp [components, h]
  · rw [heq, hp, components, List.splitOn_append_cons_self_of_not_mem hno]
    by_cases h : elem = [] <;> simp [components, h]

theorem components_cons {path : List UInt8} (h : pathElem path ≠ []) :
    components path = pathElem path :: components (nextPath path) := by
  rw [components_eq, if_neg h]

theorem nextPath_length {path : List UInt8} (h : nextPath path ≠ []) : (nextPath path).length < path.length := by
  unfold nextPath at h ⊢
  rcases nextPathElement_split path with ⟨-, heq⟩ | ⟨elem, rest, hp, -, heq⟩
  · simp [heq] at h
  · rw [heq, hp, Option.getD_some, List.length_append, List.length_cons]
    omega

/-- A rest that starts with no slash has a component. -/
theorem pathElem_ne_nil {path : List UInt8} (hne : path ≠ []) (hhead : path.head? ≠ some 0x2f) : pathElem path ≠ [] := by
  obtain ⟨c, rest, rfl⟩ := List.exists_cons_of_ne_nil hne
  have hc : c ≠ 0x2f := fun h => hhead (by simp [h])
  unfold pathElem nextPathElement
  split <;> simp [hc]

/-! ## The steps of a search -/

/-- On the way of the path every first slot with the name is live, and every one that the search goes on in is a plain
directory. -/
inductive Regular (v : Volume) : List Nat → List UInt8 → Prop
  /-- No slot has the name, whatever is behind it. -/
  | missing {ds : List Nat} {path : List UInt8} : pathElem path ≠ [] → v.firstNamed ds (pathElem path) = none →
      Regular v ds path
  | last {ds : List Nat} {path : List UInt8} {e : Slot} : pathElem path ≠ [] → v.firstNamed ds (pathElem path) = some e →
      LiveIn v ds e → (nextPath path = [] ∨ components (nextPath path) = [] ∧ v.attr e ≠ kDirectory) → Regular v ds path
  | enter {ds cs : List Nat} {path : List UInt8} {d : Slot} : pathElem path ≠ [] →
      v.firstNamed ds (pathElem path) = some d → LiveIn v ds d → v.attr d = kDirectory → nextPath path ≠ [] →
      (nextPath path).head? ≠ some 0x2f → IsChain v (v.first d) cs → Regular v cs (nextPath path) → Regular v ds path
  /-- The path is empty or all slashes. -/
  | empty {ds : List Nat} {path : List UInt8} : components path = [] → v.firstNamed ds [] = none → Regular v ds path

/-- After regular steps, `FindFile` comes to the entry `x` and returns it: a dead one, a blank one for an empty path, or one
that is no plain directory with components left. -/
inductive Broken (v : Volume) : List Nat → List UInt8 → Slot → Prop
  | dead {ds : List Nat} {path : List UInt8} {x : Slot} : pathElem path ≠ [] → v.firstNamed ds (pathElem path) = some x →
      ¬ LiveIn v ds x → (nextPath path = [] ∨ v.attr x ≠ kDirectory) → Broken v ds path x
  | blank {ds : List Nat} {path : List UInt8} {x : Slot} : components path = [] → v.firstNamed ds [] = some x →
      (nextPath path = [] ∨ v.attr x ≠ kDirectory) → Broken v ds path x
  | stop {ds : List Nat} {path : List UInt8} {x : Slot} : pathElem path ≠ [] → v.firstNamed ds (pathElem path) = some x →
      v.attr x ≠ kDirectory → components (nextPath path) ≠ [] → Broken v ds path x
  | enter {ds cs : List Nat} {path : List UInt8} {d x : Slot} : pathElem path ≠ [] →
      v.firstNamed ds (pathElem path) = some d → LiveIn v ds d → v.attr d = kDirectory → nextPath path ≠ [] →
      (nextPath path).head? ≠ some 0x2f → IsChain v (v.first d) cs → Broken v cs (nextPath path) x → Broken v ds path x

/-- After regular steps, `FindFile` looks for an empty element with a path behind it, enters a dead directory, or comes to
a doubled slash behind a directory and goes on in the root. -/
inductive Astray (v : Volume) : List Nat → List UInt8 → Prop
  | slashes {ds : List Nat} {path : List UInt8} : pathElem path = [] → components path ≠ [] → Astray v ds path
  | blank {ds : List Nat} {path : List UInt8} {x : Slot} : components path = [] → v.firstNamed ds [] = some x →
      v.attr x = kDirectory → nextPath path ≠ [] → Astray v ds path
  | dead {ds : List Nat} {path : List UInt8} {x : Slot} : pathElem path ≠ [] → v.firstNamed ds (pathElem path) = some x →
      ¬ LiveIn v ds x → v.attr x = kDirectory → nextPath path ≠ [] → Astray v ds path
  | doubled {ds : List Nat} {path : List UInt8} {d : Slot} : pathElem path ≠ [] →
      v.firstNamed ds (pathElem path) = some d → LiveIn v ds d → v.attr d = kDirectory →
      (nextPath path).head? = some 0x2f → Astray v ds path
  | enter {ds cs : List Nat} {path : List UInt8} {d : Slot} : pathElem path ≠ [] →
      v.firstNamed ds (pathElem path) = some d → LiveIn v ds d → v.attr d = kDirectory → nextPath path ≠ [] →
      (nextPath path).head? ≠ some 0x2f → IsChain v (v.first d) cs → Astray v cs (nextPath path) → Astray v ds path

/-- `FindFile` in the directory with chain `ds`, with this path before it. -/
structure Before (ds : List Nat) (path : List UInt8) (cur : Cursor) : Prop where
  dir : cur.dir = ds.headD 0
  elem : cur.elem = pathElem path
  next : cur.nextPath = nextPath path
  last : cur.pathLast = decide (nextPath path = [])

section Walk

variable {v : Volume} {ds cs : List Nat} {elem path : List UInt8} {comps : List (List UInt8)} {cur : Cursor}
  {d e x : Slot} {n dir : Nat}

/-- A directory's chain starts at a cluster, which is not 0. -/
theorem DirAt.chain (hwf : WellFormed v) (h : DirAt v n ds) : ∃ c cs, ds = c :: cs ∧ IsChain v c (c :: cs) ∧ c ≠ 0 := by
  obtain ⟨c, cs, rfl⟩ := List.exists_cons_of_ne_nil (hwf.directory_ne_nil h.directory)
  obtain ⟨first, hc⟩ := h.directory.isChain
  obtain rfl : c = first := hc.head
  exact ⟨c, cs, rfl, hc, ((hc.valid c (by simp)).ne hwf.geometry).1⟩

theorem Walk.ne_nil (h : Walk v ds comps e) : comps ≠ [] := by
  cases h <;> simp

theorem Walk.firstNamed_ne_none (h : Walk v ds (elem :: comps) e) : v.firstNamed ds elem ≠ none := by
  cases h with
  | last he => exact he.firstNamed_ne_none
  | enter he => exact he.firstNamed_ne_none

/-- What the walk ends at in its first directory is an entry for its first component, and its only one. -/
theorem Walk.here (hwf : WellFormed v) (hd : DirAt v n ds) (h : Walk v ds (elem :: comps) e) (hmem : e.1 ∈ ds) :
    Entry v ds elem e ∧ comps = [] := by
  cases h with
  | last he => exact ⟨he, rfl⟩
  | enter he hbit hcs hw => exact absurd hmem (hw.deeper hwf hd (.sub hd he.live hbit hcs) (Nat.lt_succ_self n))

/-- The walk goes on in the directory of the first live entry. -/
theorem Walk.enter_iff (hwf : WellFormed v) (hd : Entry v ds elem d) (hattr : v.attr d &&& 0x10 ≠ 0)
    (hc : IsChain v (v.first d) cs) (hne : comps ≠ []) : Walk v ds (elem :: comps) e ↔ Walk v cs comps e := by
  refine ⟨fun h => ?_, fun h => .enter hd hattr hc h⟩
  cases h with
  | last => exact absurd rfl hne
  | enter hd' _ hc' hw =>
    obtain rfl := hd.unique hd'
    obtain rfl := hc.unique hwf.geometry hc'
    exact hw

/-- A call of `FindFile`: the root directory behind a slash or for cluster 0, else the directory given. -/
theorem Before.start (hlen : ∀ c ∈ components path, c.length ≤ 12)
    (hstart : ds.headD 0 = if path.head? = some 0x2f ∨ dir = 0 then v.bpb.rootCluster.toNat else dir) :
    ∃ cur, findStart v.bpb path dir = some cur ∧ Before ds (skipSlash path) cur := by
  have hshort : ¬ 12 < (elemOf path).length := by
    by_cases h : pathElem (skipSlash path) = []
    · simp [elemOf, show (nextPathElement (skipSlash path)).1 = [] from h]
    · rw [← components_skipSlash, components_cons h] at hlen
      exact Nat.not_lt.mpr (hlen _ (List.mem_cons_self ..))
  rw [findStart_eq, if_neg hshort]
  exact ⟨_, rfl, hstart.symm, rfl, rfl, rfl⟩

/-- The next call of `FindFile`, in a directory on the way. -/
theorem Before.further (hg : v.bpb.Geometry) (hlen : ∀ c ∈ components path, c.length ≤ 12)
    (hhead : path.head? ≠ some 0x2f) (hc : IsChain v (v.first d) cs) (hne : cs ≠ []) :
    ∃ cur, findStart v.bpb path (v.first d) = some cur ∧ Before cs path cur := by
  obtain ⟨c, cs', rfl⟩ := List.exists_cons_of_ne_nil hne
  obtain rfl : c = v.first d := hc.head
  have h0 := ((hc.valid _ (List.mem_cons_self ..)).ne hg).1
  have hstart := @Before.start v (v.first d :: cs') path (v.first d) hlen (by simp [hhead, h0])
  rwa [skipSlash_of_ne hhead] at hstart

/-- **On regular steps the search is the walk.** -/
theorem Regular.finds (hwf : WellFormed v) (h : Regular v ds path) : ∀ {n : Nat} {cur : Cursor}, DirAt v n ds →
    (∀ c ∈ components path, c.length ≤ 12) → Before ds path cur →
    ∃ r, Finds v cur r ∧ ∀ e, r.2 = some e ↔ Walk v ds (components path) e := by
  have hg := hwf.geometry
  induction h with
  | @missing ds path helem hnone =>
    intro n cur hd _ hat
    obtain ⟨c, cs, rfl, hc, -⟩ := hd.chain hwf
    refine ⟨_, finds_none hg hc hat.dir (hat.elem ▸ hnone), fun e => iff_of_false (by simp) fun hw => ?_⟩
    rw [components_cons helem] at hw
    exact hw.firstNamed_ne_none hnone
  | @last ds path e helem hfirst hlive hend =>
    intro n cur hd _ hat
    have hnil : components (nextPath path) = [] := hend.elim (fun h => by rw [h]; rfl) fun h => h.1
    have hstop : ¬ (v.attr e = kDirectory ∧ cur.pathLast = false) := by
      rw [hat.last]
      rcases hend with h | h
      · simp [h]
      · exact fun hs => h.2 hs.1
    have he := Entry.of_first hfirst hlive
    have hwalk : ∀ e', some e = some e' ↔ Walk v ds (components path) e' := by
      intro e'
      rw [components_cons helem, hnil]
      constructor
      · intro heq
        obtain rfl := Option.some.inj heq
        exact .last he
      · intro hw
        cases hw with
        | last he' => rw [he.unique he']
        | enter _ _ _ hw => exact absurd rfl hw.ne_nil
    obtain ⟨c, cs, rfl, hc, -⟩ := hd.chain hwf
    exact ⟨_, finds_here hg hc hat.dir (hat.elem ▸ hfirst) hstop, hwalk⟩
  | @enter ds cs path d helem hfirst hlive hattr hnext hhead hcs _ ih =>
    intro n cur hd hlen hat
    have hbit := kDirectory_bit hattr
    have hd' : DirAt v (n + 1) cs := .sub hd hlive hbit hcs
    rw [components_cons helem] at hlen ⊢
    have hlen' : ∀ c ∈ components (nextPath path), c.length ≤ 12 := fun c hc => hlen c (List.mem_cons_of_mem _ hc)
    obtain ⟨cur', hst, hat'⟩ := Before.further hg hlen' hhead hcs (hwf.directory_ne_nil hd'.directory)
    obtain ⟨r, hr, hiff⟩ := ih hd' hlen' hat'
    have hcomps : components (nextPath path) ≠ [] := by
      rw [components_cons (pathElem_ne_nil hnext hhead)]
      exact List.cons_ne_nil _ _
    have hwalk : ∀ e, r.2 = some e ↔ Walk v ds (pathElem path :: components (nextPath path)) e := by
      intro e
      rw [hiff e, Walk.enter_iff hwf (Entry.of_first hfirst hlive) hbit hcs hcomps]
    obtain ⟨c, cs', rfl, hc, -⟩ := hd.chain hwf
    exact ⟨_, finds_enter hg hc hat.dir (hat.elem ▸ hfirst) hattr (by simp [hat.last, hnext]) (hat.next ▸ hst) hr, hwalk⟩
  | @empty ds path hnil hnone =>
    intro n cur hd _ hat
    have helem : pathElem path = [] := by
      by_contra h
      rw [components_cons h] at hnil
      cases hnil
    obtain ⟨c, cs, rfl, hc, -⟩ := hd.chain hwf
    rw [← helem, ← hat.elem] at hnone
    rw [hnil]
    exact ⟨_, finds_none hg hc hat.dir hnone, fun e => iff_of_false (by simp) fun hw => hw.ne_nil rfl⟩

/-- **Where it breaks off**, the search returns an entry that is not the walk's. -/
theorem Broken.finds (hwf : WellFormed v) (h : Broken v ds path x) : ∀ {n : Nat} {cur : Cursor}, DirAt v n ds →
    (∀ c ∈ components path, c.length ≤ 12) → Before ds path cur →
    (∃ r, Finds v cur r ∧ r.2 = some x) ∧ ¬ Walk v ds (components path) x := by
  have hg := hwf.geometry
  induction h with
  | @dead ds path x helem hfirst hdead hend =>
    intro n cur hd _ hat
    have hmem := (Volume.firstNamed_some hfirst).1
    have hstop : ¬ (v.attr x = kDirectory ∧ cur.pathLast = false) := by
      rw [hat.last]
      rcases hend with h | h
      · simp [h]
      · exact fun hs => h hs.1
    have hnot : ¬ Walk v ds (components path) x := by
      rw [components_cons helem]
      exact fun hw => hdead (hw.here hwf hd hmem).1.live
    obtain ⟨c, cs, rfl, hc, -⟩ := hd.chain hwf
    exact ⟨⟨_, finds_here hg hc hat.dir (hat.elem ▸ hfirst) hstop, rfl⟩, hnot⟩
  | @blank ds path x hnil hfirst hend =>
    intro n cur hd _ hat
    have helem : pathElem path = [] := by
      by_contra h
      rw [components_cons h] at hnil
      cases hnil
    have hstop : ¬ (v.attr x = kDirectory ∧ cur.pathLast = false) := by
      rw [hat.last]
      rcases hend with h | h
      · simp [h]
      · exact fun hs => h hs.1
    rw [← helem, ← hat.elem] at hfirst
    obtain ⟨c, cs, rfl, hc, -⟩ := hd.chain hwf
    exact ⟨⟨_, finds_here hg hc hat.dir hfirst hstop, rfl⟩, fun hw => hw.ne_nil hnil⟩
  | @stop ds path x helem hfirst hattr hleft =>
    intro n cur hd _ hat
    have hmem := (Volume.firstNamed_some hfirst).1
    have hnot : ¬ Walk v ds (components path) x := by
      rw [components_cons helem]
      exact fun hw => hleft (hw.here hwf hd hmem).2
    obtain ⟨c, cs, rfl, hc, -⟩ := hd.chain hwf
    exact ⟨⟨_, finds_here hg hc hat.dir (hat.elem ▸ hfirst) fun hs => hattr hs.1, rfl⟩, hnot⟩
  | @enter ds cs path d x helem hfirst hlive hattr hnext hhead hcs _ ih =>
    intro n cur hd hlen hat
    have hbit := kDirectory_bit hattr
    have hd' : DirAt v (n + 1) cs := .sub hd hlive hbit hcs
    rw [components_cons helem] at hlen ⊢
    have hlen' : ∀ c ∈ components (nextPath path), c.length ≤ 12 := fun c hc => hlen c (List.mem_cons_of_mem _ hc)
    obtain ⟨cur', hst, hat'⟩ := Before.further hg hlen' hhead hcs (hwf.directory_ne_nil hd'.directory)
    obtain ⟨⟨r, hr, hrx⟩, hnot⟩ := ih hd' hlen' hat'
    have hcomps : components (nextPath path) ≠ [] := by
      rw [components_cons (pathElem_ne_nil hnext hhead)]
      exact List.cons_ne_nil _ _
    have hnot' : ¬ Walk v ds (pathElem path :: components (nextPath path)) x := by
      rwa [Walk.enter_iff hwf (Entry.of_first hfirst hlive) hbit hcs hcomps]
    obtain ⟨c, cs', rfl, hc, -⟩ := hd.chain hwf
    exact ⟨⟨_, finds_enter hg hc hat.dir (hat.elem ▸ hfirst) hattr (by simp [hat.last, hnext]) (hat.next ▸ hst) hr, hrx⟩,
      hnot'⟩

/-- **The three cases are all.** By induction on the path: what is left of it gets shorter with each directory entered. -/
theorem regular_or_broken_or_astray (hwf : WellFormed v) (hd : Directory v ds) (path : List UInt8) :
    Regular v ds path ∨ (∃ x, Broken v ds path x) ∨ Astray v ds path := by
  induction hk : path.length using Nat.strong_induction_on generalizing ds path with
  | _ k ih =>
  subst hk
  by_cases helem : pathElem path = []
  · by_cases hnil : components path = []
    · cases hfirst : v.firstNamed ds [] with
      | none => exact .inl (.empty hnil hfirst)
      | some x =>
        by_cases hgo : nextPath path = [] ∨ v.attr x ≠ kDirectory
        · exact .inr (.inl ⟨x, .blank hnil hfirst hgo⟩)
        · push Not at hgo
          exact .inr (.inr (.blank hnil hfirst hgo.2 hgo.1))
    · exact .inr (.inr (.slashes helem hnil))
  cases hfirst : v.firstNamed ds (pathElem path) with
  | none => exact .inl (.missing helem hfirst)
  | some e =>
    by_cases hlive : LiveIn v ds e
    · by_cases hnext : nextPath path = []
      · exact .inl (.last helem hfirst hlive (.inl hnext))
      by_cases hattr : v.attr e = kDirectory
      · by_cases hhead : (nextPath path).head? = some 0x2f
        · exact .inr (.inr (.doubled helem hfirst hlive hattr hhead))
        -- only here does the search go on, in a directory of the tree
        · obtain ⟨cs, hcs, -⟩ := hwf.chains e ⟨ds, hd, hlive⟩
          have hsub : Directory v cs := .sub hd hlive (kDirectory_bit hattr) hcs
          rcases ih _ (nextPath_length hnext) hsub _ rfl with h | ⟨x, h⟩ | h
          · exact .inl (.enter helem hfirst hlive hattr hnext hhead hcs h)
          · exact .inr (.inl ⟨x, .enter helem hfirst hlive hattr hnext hhead hcs h⟩)
          · exact .inr (.inr (.enter helem hfirst hlive hattr hnext hhead hcs h))
      · by_cases hnil : components (nextPath path) = []
        · exact .inl (.last helem hfirst hlive (.inr ⟨hnil, hattr⟩))
        · exact .inr (.inl ⟨e, .stop helem hfirst hattr hnil⟩)
    · by_cases hgo : nextPath path = [] ∨ v.attr e ≠ kDirectory
      · exact .inr (.inl ⟨e, .dead helem hfirst hlive hgo⟩)
      · push Not at hgo
        exact .inr (.inr (.dead helem hfirst hlive hgo.2 hgo.1))

end Walk

/-! ## `FindFile` -/

/-- `FindFile` returns what the walk ends at, and nothing if there is no such walk. -/
def Walks (s : Server) (path : List UInt8) (dir : Nat) (ds : List Nat) : Prop :=
  (∀ e, s.Returns path dir (some e) ↔ Walk s.vol ds (components path) e) ∧
    (s.Returns path dir none ↔ ∀ e, ¬ Walk s.vol ds (components path) e)

/-- **Path lookup is the component walk on regular steps**, for every path with components of at most 12 characters and from
every directory of the tree. Where it is the walk, the path is regular or has led the search astray: on every other one
`FindFile` returns an entry that the walk does not end at. -/
theorem findFile_walk {s : Server} (hwf : WellFormed s.vol) {path : List UInt8}
    (hlen : ∀ c ∈ components path, c.length ≤ 12) {dir : Nat} {ds : List Nat} (hd : Directory s.vol ds)
    (hstart : ds.headD 0 = if path.head? = some 0x2f ∨ dir = 0 then s.vol.bpb.rootCluster.toNat else dir) :
    (Regular s.vol ds (skipSlash path) → Walks s path dir ds) ∧
    (Walks s path dir ds → Regular s.vol ds (skipSlash path) ∨ Astray s.vol ds (skipSlash path)) := by
  have hcases := regular_or_broken_or_astray hwf hd (skipSlash path)
  obtain ⟨n, hd⟩ := hd.dirAt
  obtain ⟨cur, hst, hat⟩ := Before.start hlen hstart
  rw [← components_skipSlash] at hlen
  constructor
  · intro hreg
    obtain ⟨r, hr, hiff⟩ := hreg.finds hwf hd hlen hat
    rw [components_skipSlash] at hiff
    have hret := hr.returns hwf.geometry hst
    refine ⟨fun e => ?_, ?_⟩
    · rw [← hiff e]
      exact ⟨fun h => hret.unique h, fun h => h ▸ hret⟩
    · constructor
      · intro h e hw
        have hnone := hret.unique h
        rw [(hiff e).mpr hw] at hnone
        cases hnone
      · intro h
        have hnone : r.2 = none := by
          cases hr2 : r.2 with
          | none => rfl
          | some e => exact absurd ((hiff e).mp hr2) (h e)
        exact hnone ▸ hret
  · intro hwalks
    rcases hcases with h | ⟨x, hx⟩ | h
    · exact .inl h
    · obtain ⟨⟨r, hr, hrx⟩, hnot⟩ := hx.finds hwf hd hlen hat
      rw [components_skipSlash] at hnot
      exact absurd ((hwalks.1 x).mp (hrx ▸ hr.returns hwf.geometry hst)) hnot
    · exact .inr h

/-! ### A file in a subdirectory -/

/-- The root directory holds the directory `D` in cluster 3, and that the file `A` of two bytes in cluster 4. -/
def nested : Volume where
  bpb := twoBytes.bpb
  image := fun a =>
    if a < 1024 then (if a < 520 ∨ 532 ≤ a then 0 else if a % 4 = 3 then 0x0f else 0xff)
    else if a = 1024 then 0x44
    else if a = 1536 then 0x41
    else if a = 1035 then kDirectory
    else if a ≤ 1034 ∨ 1537 ≤ a ∧ a ≤ 1547 then 0x20
    else if a = 1050 then 3
    else if a = 1562 then 4
    else if a = 1564 then 2
    else if a = 2048 then 1
    else if a = 2049 then 2
    else 0

def nestedServer : Server := { twoBytesServer with vol := nested }

section Nested

variable {v : Volume} {c : Nat} {cs ds : List Nat} {d e : Slot}

/-- A chain ends at its end mark. -/
theorem IsChain.single (hg : v.bpb.Geometry) (h : IsChain v c cs) (hc : c ≠ 0) (hend : 0x0ffffff8 ≤ v.fatAt c) : cs = [c] := by
  rcases cs with - | ⟨x, cs⟩
  · exact absurd h.head.symm hc
  obtain rfl : x = c := h.head
  cases cs with
  | nil => rfl
  | cons d cs =>
    have hd : v.fatAt x = d := h.linked.1
    have h1 := (h.valid d (by simp)).2
    have h2 := hg.marks
    omega

/-- An end marker in the second slot leaves only the first. -/
theorem LiveIn.first_slot (h : LiveIn v [c] d) (hend : v.name0 (c, 1) = 0) : d = (c, 0) := by
  obtain ⟨c', i⟩ := d
  obtain rfl : c' = c := List.mem_singleton.mp h.mem
  obtain ⟨pre, post, -, -, hbefore⟩ := h.before
  rcases Nat.eq_zero_or_pos i with rfl | hi
  · rfl
  · exact absurd hend (hbefore 1 hi)

theorem nested_geometry : nested.bpb.Geometry := twoBytes_geometry

theorem nested_root (h : IsChain nested nested.bpb.rootCluster.toNat ds) : ds = [2] :=
  h.single nested_geometry (by decide) (by decide)

theorem nested_directory (h : Directory nested ds) : ds = [2] ∨ ds = [3] := by
  induction h with
  | root h => exact .inl (nested_root h)
  | sub hdir hin hattr hchain ih =>
    rcases ih with rfl | rfl
    · obtain rfl := hin.first_slot (by decide)
      exact .inr (hchain.single nested_geometry (by decide) (by decide))
    · obtain rfl := hin.first_slot (by decide)
      exact absurd (show nested.attr (3, 0) &&& 0x10 = 0 by decide) hattr

theorem nested_live : Live nested e → e = (2, 0) ∨ e = (3, 0)
  | ⟨ds, hdir, hin⟩ => by
    rcases nested_directory hdir with rfl | rfl
    · exact .inl (hin.first_slot (by decide))
    · exact .inr (hin.first_slot (by decide))

theorem nested_chain (h : IsChain nested (nested.first e) cs) (he : Live nested e) :
    e = (2, 0) ∧ cs = [3] ∨ e = (3, 0) ∧ cs = [4] :=
  (nested_live he).imp (fun h2 => ⟨h2, by subst h2; exact h.single nested_geometry (by decide) (by decide)⟩)
    fun h3 => ⟨h3, by subst h3; exact h.single nested_geometry (by decide) (by decide)⟩

theorem nested_linked (hc : c ∈ [2, 3, 4]) : IsChain nested c [c] := by
  have hend : ∀ c ∈ [2, 3, 4], 0x0ffffff8 ≤ nested.fatAt c := by decide
  have hval : ∀ c ∈ [2, 3, 4], nested.bpb.Valid c := by decide
  exact ⟨rfl, by simpa using hval c hc, by simp, hend c hc⟩

theorem nested_wellFormed : WellFormed nested where
  geometry := nested_geometry
  root := ⟨[2], by simp, nested_linked (by decide)⟩
  chains e he := by
    rcases nested_live he with rfl | rfl
    · exact ⟨[3], nested_linked (c := 3) (by decide), by simp⟩
    · exact ⟨[4], nested_linked (c := 4) (by decide), by simp⟩
  rootApart he hr hc := by
    obtain rfl := nested_root hr
    rcases nested_chain hc he with ⟨-, rfl⟩ | ⟨-, rfl⟩ <;> simp
  apart he he' hne hc hc' := by
    rcases nested_chain hc he with ⟨rfl, rfl⟩ | ⟨rfl, rfl⟩ <;> rcases nested_chain hc' he' with ⟨rfl, rfl⟩ | ⟨rfl, rfl⟩
    · exact absurd rfl hne
    · simp
    · simp
    · exact absurd rfl hne

theorem nested_slot (hc : c ∈ [2, 3]) : LiveIn nested [c] (c, 0) := by
  have hname : ∀ c ∈ [2, 3], nested.name0 (c, 0) ≠ 0 ∧ nested.name0 (c, 0) ≠ 0xe5 ∧ nested.name0 (c, 0) ≠ 0x2e ∧
      nested.attr (c, 0) &&& 0x08 = 0 := by decide
  obtain ⟨h0, h1, h2, h3⟩ := hname c hc
  have hn : 0 < nested.bpb.entriesPerCluster := by decide
  refine ⟨hn, ⟨[], [], rfl, by simp, fun i hi => ?_⟩, ⟨h1, h2⟩, h3⟩
  obtain rfl : i = 0 := Nat.le_zero.mp hi
  exact h0

end Nested

/-- The paths `/d/a`, which goes through the directory, and `x//y`, with no `x` before the doubled slash. -/
theorem findFile_walk_nested : Walks nestedServer [0x2f, 0x64, 0x2f, 0x61] 0 [2] ∧
    Walks nestedServer [0x78, 0x2f, 0x2f, 0x79] 0 [2] := by
  have hroot : Directory nested [2] := .root (nested_linked (by decide))
  have hd : nested.firstNamed [2] [0x64] = some (2, 0) := by decide
  have ha : nested.firstNamed [3] [0x61] = some (3, 0) := by decide
  have hx : nested.firstNamed [2] [0x78] = none := by decide
  constructor
  · refine (@findFile_walk nestedServer nested_wellFormed _ (by decide) 0 [2] hroot (by decide)).1 ?_
    refine .enter (by decide) hd (nested_slot (by decide)) (by decide) (by decide) (by decide)
      (nested_linked (c := 3) (by decide)) ?_
    exact .last (by decide) ha (nested_slot (by decide)) (.inl (by decide))
  · refine (@findFile_walk nestedServer nested_wellFormed _ (by decide) 0 [2] hroot (by decide)).1 ?_
    exact .missing (by decide) hx

theorem twoBytes_first : twoBytes.firstNamed [2] [0x61] = some (2, 0) := by decide

/-- The path `a/b` goes through a regular file, and `FindFile` returns the file. -/
theorem findFile_through_file : WellFormed twoBytes ∧ twoBytesServer.vol = twoBytes ∧
    twoBytesServer.Returns [0x61, 0x2f, 0x62] 0 (some (2, 0)) ∧ ∀ e, ¬ Walk twoBytes [2] [[0x61], [0x62]] e := by
  have hcomps : components [0x61, 0x2f, 0x62] = [[0x61], [0x62]] := by decide
  have hroot : DirAt twoBytes 0 [2] := .root twoBytes_rootChain
  have hattr : twoBytes.attr (2, 0) &&& 0x10 = 0 := by decide
  have hbroken : Broken twoBytes [2] [0x61, 0x2f, 0x62] (2, 0) :=
    .stop (by decide) twoBytes_first (by decide) (by decide)
  obtain ⟨cur, hst, hat⟩ := @Before.start twoBytes [2] [0x61, 0x2f, 0x62] 0 (by decide) (by decide)
  obtain ⟨⟨r, hr, hrx⟩, -⟩ := hbroken.finds twoBytes_wellFormed hroot (by decide) hat
  refine ⟨twoBytes_wellFormed, rfl, hrx ▸ hr.returns (s := twoBytesServer) twoBytes_geometry hst, fun e hw => ?_⟩
  cases hw with
  | enter hd hbit =>
    obtain rfl := twoBytes_liveIn hd.live
    exact hbit hattr

end KinOS.Fs
