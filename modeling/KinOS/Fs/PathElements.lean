import KinOS.Fs.ReadSlices
import KinOS.Fs.Create

/-!
# The elements of a path and the buffer for them

`FindFile` has `NextPathElement` copy each element of the path into `char path_elem[13]`, with no limit
(`servers/fs/fs.cpp:139-151`). What limits a path is its sender: `open` and the terminal refuse more than 26 characters, so
one element may have 26. `findCalls` are the elements copied until the first that does not fit.

| here | there |
| --- | --- |
| `openFilename`    | `open` (`libs/kinos/common/newlib_support.c:79-98`) |
| `executeFilename` | `Terminal::ExecuteFile` (`servers/terminal/terminal.cpp:239-253`) |
| `findCalls`       | the calls of `NextPathElement` in `FindFile` (`fs.cpp:153-189`) |
| `createCalls`     | those in `CreateFile` (`fs.cpp:204-234`) |
-/

namespace KinOS.Fs

open Bytes

/-! ## The senders' check -/

/-- The loop that copies a path into a message, with `if (i > 25)` before each character. -/
def copyPath (i : Nat) : List UInt8 → Option (List UInt8)
  | [] => some []
  | c :: path => if 25 < i then none else (copyPath (i + 1) path).map (c :: ·)

def openFilename (path : List UInt8) : Option (List UInt8) := copyPath 0 path

def executeFilename (command : List UInt8) : Option (List UInt8) := copyPath 0 command

theorem copyPath_eq : ∀ {path : List UInt8} {i : Nat}, i ≤ 26 →
    copyPath i path = if i + path.length ≤ 26 then some path else none
  | [], i, h => by rw [copyPath, if_pos (by simpa using h)]
  | c :: path, i, h => by
    rw [copyPath, List.length_cons]
    by_cases hi : 25 < i
    · rw [if_pos hi, if_neg (by omega)]
    · rw [if_neg hi, copyPath_eq (show i + 1 ≤ 26 by omega)]
      by_cases hle : i + 1 + path.length ≤ 26
      · rw [if_pos hle, if_pos (by omega)]
        rfl
      · rw [if_neg hle, if_neg (by omega)]
        rfl

/-! ## The elements -/

/-- The path as it is handed to `NextPathElement`. -/
def skipSlash : List UInt8 → List UInt8
  | 0x2f :: rest => rest
  | path => path

/-- What `FindFile` has copied first. -/
def elemOf (path : List UInt8) : List UInt8 := (nextPathElement (skipSlash path)).1

/-- The elements copied by the loop of `FindFile` and the calls it makes. -/
def lookupCalls (v : Volume) : Nat → Cursor → List (List UInt8)
  | 0, _ => []
  | fuel + 1, cur =>
    if cur.dir = 0x0fffffff then []
    else
      match scanEntries (v.cluster cur.dir) v.bpb.entriesPerCluster cur.elem with
      | some i =>
        if v.attr (cur.dir, i) = kDirectory ∧ cur.pathLast = false then
          elemOf cur.nextPath :: match findStart v.bpb cur.nextPath (v.first (cur.dir, i)) with
            | some cur => lookupCalls v fuel cur
            | none => []
        else []
      | none => lookupCalls v fuel { cur with dir := v.next cur.dir }

/-- The elements that `FindFile` has copied; the one that does not fit is the last. -/
def findCalls (v : Volume) (fuel : Nat) (path : List UInt8) (dir : Nat) : List (List UInt8) :=
  elemOf path :: match findStart v.bpb path dir with
    | some cur => lookupCalls v fuel cur
    | none => []

/-- Those of `CreateFile`, which looks for the parent directory. -/
def createCalls (v : Volume) (fuel : Nat) (path : List UInt8) : List (List UInt8) :=
  match strrchr path 0x2f with
  | none => []
  | some (parent, filename) => if filename = [] ∨ parent = [] then [] else findCalls v fuel parent 0

/-! ## Elements are components -/

theorem dropWhile_slash : ∀ {path : List UInt8}, 0x2f ∈ path →
    path.dropWhile (· ≠ 0x2f) = 0x2f :: (path.dropWhile (· ≠ 0x2f)).tail
  | c :: path, h => by
    by_cases hc : c = 0x2f
    · subst hc
      simp
    · have hne : ¬ (0x2f = c) := fun h => hc h.symm
      have hmem : 0x2f ∈ path := by simpa [hne] using h
      rw [List.dropWhile_cons_of_pos (by simpa using hc)]
      exact dropWhile_slash hmem

theorem nextPathElement_split (path : List UInt8) :
    (0x2f ∉ path ∧ nextPathElement path = (path, none)) ∨
    ∃ elem rest, path = elem ++ 0x2f :: rest ∧ 0x2f ∉ elem ∧ nextPathElement path = (elem, some rest) := by
  by_cases h : 0x2f ∈ path
  · refine .inr ⟨path.takeWhile (· ≠ 0x2f), (path.dropWhile (· ≠ 0x2f)).tail, ?_, fun hm => ?_, ?_⟩
    · rw [← dropWhile_slash h, List.takeWhile_append_dropWhile]
    · simpa using List.mem_takeWhile_imp hm
    · rw [nextPathElement, if_pos h]
  · refine .inl ⟨h, ?_⟩
    have htake : path.takeWhile (· ≠ 0x2f) = path :=
      List.takeWhile_eq_self_iff.mpr fun c hc => by simpa using fun he : c = 0x2f => h (he ▸ hc)
    rw [nextPathElement, if_neg h, htake]

theorem skipSlash_components (path : List UInt8) : ∀ c ∈ (skipSlash path).splitOn 0x2f, c ∈ path.splitOn 0x2f := by
  intro c hc
  unfold skipSlash at hc
  split at hc
  · rename_i rest
    have hsplit := List.splitOn_append_cons_self (a := (0x2f : UInt8)) [] rest
    rw [List.nil_append] at hsplit
    rw [hsplit]
    exact List.mem_append_right _ hc
  · exact hc

/-- The path's components are the slash before it, its first element and the components of the rest. -/
theorem components_split {path rest : List UInt8} (h : (nextPathElement (skipSlash path)).2 = some rest) :
    ∀ c ∈ rest.splitOn 0x2f, c ∈ path.splitOn 0x2f := by
  intro c hc
  refine skipSlash_components path c ?_
  rcases nextPathElement_split (skipSlash path) with ⟨-, heq⟩ | ⟨elem, rest', hp, hno, heq⟩
  · rw [heq] at h
    cases h
  · rw [heq] at h
    obtain rfl := Option.some.inj h
    rw [hp, List.splitOn_append_cons_self_of_not_mem hno]
    exact List.mem_cons_of_mem _ hc

theorem elemOf_component (path : List UInt8) : elemOf path ∈ path.splitOn 0x2f := by
  refine skipSlash_components path _ ?_
  unfold elemOf
  rcases nextPathElement_split (skipSlash path) with ⟨hno, heq⟩ | ⟨elem, rest, hp, hno, heq⟩
  · rw [heq, List.splitOn_eq_singleton hno]
    exact List.mem_singleton_self _
  · rw [heq, hp, List.splitOn_append_cons_self_of_not_mem hno]
    exact List.mem_cons_self ..

/-- A component is empty, the first element or a component of the rest. -/
theorem component_cases {path c : List UInt8} (h : c ∈ path.splitOn 0x2f) :
    c = [] ∨ c = elemOf path ∨ ∃ rest, (nextPathElement (skipSlash path)).2 = some rest ∧ c ∈ rest.splitOn 0x2f := by
  have hskip : c = [] ∨ c ∈ (skipSlash path).splitOn 0x2f := by
    unfold skipSlash
    split
    · rename_i rest
      have hsplit := List.splitOn_append_cons_self (a := (0x2f : UInt8)) [] rest
      rw [List.nil_append] at hsplit
      rw [hsplit, List.splitOn_nil, List.mem_append, List.mem_singleton] at h
      exact h
    · exact .inr h
  refine hskip.imp_right fun h => ?_
  unfold elemOf
  rcases nextPathElement_split (skipSlash path) with ⟨hno, heq⟩ | ⟨elem, rest, hp, hno, heq⟩
  · rw [List.splitOn_eq_singleton hno, List.mem_singleton] at h
    rw [heq]
    exact .inl h
  · rw [hp, List.splitOn_append_cons_self_of_not_mem hno, List.mem_cons] at h
    rw [heq]
    exact h.imp_right fun h => ⟨rest, rfl, h⟩

theorem skipSlash_of_ne {path : List UInt8} (h : path.head? ≠ some 0x2f) : skipSlash path = path := by
  unfold skipSlash
  split
  · exact absurd rfl h
  · rfl

/-- What `FindFile` has before its loop. -/
theorem findStart_eq (b : BPB) (path : List UInt8) (dir : Nat) : findStart b path dir =
    if 12 < (elemOf path).length then none
    else some
      { dir := if path.head? = some 0x2f ∨ dir = 0 then b.rootCluster.toNat else dir
        elem := elemOf path
        nextPath := (nextPathElement (skipSlash path)).2.getD []
        pathLast := (nextPathElement (skipSlash path)).2.getD [] = []
        postSlash := (nextPathElement (skipSlash path)).2.isSome } := by
  by_cases hhead : path.head? = some 0x2f
  · obtain ⟨rest, rfl⟩ := List.head?_eq_some_iff.mp hhead
    simp only [findStart, elemOf, skipSlash, List.head?_cons, true_or, if_true]
  · have hno : ∀ rest, path = 0x2f :: rest → False := by
      rintro rest rfl
      exact hhead rfl
    have hskip : skipSlash path = path := skipSlash_of_ne hhead
    simp only [findStart, elemOf, hskip, hhead, false_or]

theorem findStart_rest {b : BPB} {path : List UInt8} {dir : Nat} {cur : Cursor} (h : findStart b path dir = some cur)
    (hlast : cur.pathLast = false) : (nextPathElement (skipSlash path)).2 = some cur.nextPath := by
  rw [findStart_eq] at h
  split at h
  · cases h
  · obtain rfl := Option.some.inj h
    simp only [decide_eq_false_iff_not] at hlast
    cases hn : (nextPathElement (skipSlash path)).2 with
    | none => simp [hn] at hlast
    | some rest => rfl

/-- What is copied is a component of what the loop has left of the path. -/
theorem lookupCalls_components {v : Volume} {cs : List (List UInt8)} : ∀ {fuel : Nat} {cur : Cursor},
    (cur.pathLast = false → ∀ c ∈ cur.nextPath.splitOn 0x2f, c ∈ cs) → ∀ elem ∈ lookupCalls v fuel cur, elem ∈ cs
  | 0, _, _, _, h => by simp [lookupCalls] at h
  | fuel + 1, cur, hcs, elem, h => by
    rw [lookupCalls] at h
    split at h
    · simp at h
    split at h
    · rename_i i _
      split at h
      · rename_i hd
        have hnext := hcs hd.2
        rcases List.mem_cons.mp h with rfl | h
        · exact hnext _ (elemOf_component _)
        · cases hst : findStart v.bpb cur.nextPath (v.first (cur.dir, i)) with
          | none => simp [hst] at h
          | some cur' =>
            rw [hst] at h
            refine lookupCalls_components (fun hlast c hc => hnext c ?_) elem h
            exact components_split (findStart_rest hst hlast) c hc
      · simp at h
    · exact @lookupCalls_components _ _ _ { cur with dir := v.next cur.dir } hcs elem h

theorem findCalls_components {v : Volume} {fuel : Nat} {path : List UInt8} {dir : Nat} :
    ∀ elem ∈ findCalls v fuel path dir, elem ∈ path.splitOn 0x2f := by
  intro elem h
  rcases List.mem_cons.mp h with rfl | h
  · exact elemOf_component path
  · cases hst : findStart v.bpb path dir with
    | none => simp [hst] at h
    | some cur =>
      rw [hst] at h
      exact lookupCalls_components (fun hlast c hc => components_split (findStart_rest hst hlast) c hc) elem h

theorem strrchr_some {xs a b : List UInt8} {ch : UInt8} (h : strrchr xs ch = some (a, b)) : xs = a ++ ch :: b ∧ ch ∉ b := by
  unfold strrchr at h
  split at h
  · rename_i hmem
    obtain ⟨rfl, rfl⟩ := Prod.mk.inj (Option.some.inj h)
    have hrev : ch ∈ xs.reverse := List.mem_reverse.mpr hmem
    have hdrop : ∀ {ys : List UInt8}, ch ∈ ys → ys.dropWhile (· ≠ ch) = ch :: (ys.dropWhile (· ≠ ch)).tail := by
      intro ys
      induction ys with
      | nil => simp
      | cons y ys ih =>
        intro hy
        by_cases hyc : y = ch
        · subst hyc
          simp
        · have hys : ch ∈ ys := (List.mem_cons.mp hy).resolve_left (Ne.symm hyc)
          rw [List.dropWhile_cons_of_pos (by simpa using hyc)]
          exact ih hys
    refine ⟨?_, fun hb => ?_⟩
    · have hsplit := congrArg List.reverse (List.takeWhile_append_dropWhile (p := (· ≠ ch)) (l := xs.reverse))
      rw [hdrop hrev, List.reverse_append, List.reverse_cons, List.reverse_reverse] at hsplit
      simpa using hsplit.symm
    · rw [List.mem_reverse] at hb
      simpa using List.mem_takeWhile_imp hb
  · cases h

theorem createCalls_components {v : Volume} {fuel : Nat} {path : List UInt8} :
    ∀ elem ∈ createCalls v fuel path, elem ∈ path.splitOn 0x2f := by
  intro elem h
  unfold createCalls at h
  cases hsp : strrchr path 0x2f with
  | none => simp [hsp] at h
  | some pf =>
    obtain ⟨parent, filename⟩ := pf
    simp only [hsp] at h
    split at h
    · simp at h
    · rw [(strrchr_some hsp).1, List.splitOn_append_cons_self]
      exact List.mem_append_left _ (findCalls_components elem h)

/-! ## A volume on which every component is copied -/

/-- Two clusters of 1024 bytes behind a FAT of one sector. -/
def mirrorBPB : BPB := ⟨512, 2, 1, 1, 6, 1, 2⟩

theorem mirrorBPB_geometry : mirrorBPB.Geometry := by
  constructor <;> decide

/-- A root directory with an entry for each of the names, all of them the root directory. -/
def mirror (names : List (List UInt8)) : Volume where
  bpb := mirrorBPB
  image := fun a =>
    if a < 1024 then (if a < 520 ∨ 524 ≤ a then 0 else if a % 4 = 3 then 0x0f else 0xff)
    else
      match names[(a - 1024) / 32]? with
      | none => 0
      | some name =>
        let j := (a - 1024) % 32
        if j < 11 then (name83 name 0 (List.replicate 11 0x20)).getD j 0
        else if j = 11 then kDirectory
        else if j = 26 then 2
        else 0

section Mirror

variable {names : List (List UInt8)}

theorem mirror_cluster {i j : Nat} {name : List UInt8} (hi : names[i]? = some name) (hj : j < 32) :
    (mirror names).cluster 2 (32 * i + j) = if j < 11 then (name83 name 0 (List.replicate 11 0x20)).getD j 0
      else if j = 11 then kDirectory else if j = 26 then 2 else 0 := by
  have hsector : mirrorBPB.clusterSector 2 * 512 = 1024 := by decide
  have hdiv : (1024 + (32 * i + j) - 1024) / 32 = i := by omega
  have hmod : (1024 + (32 * i + j) - 1024) % 32 = j := by omega
  rw [Volume.cluster, show (mirror names).bpb = mirrorBPB from rfl, hsector]
  simp only [mirror, if_neg (show ¬ 1024 + (32 * i + j) < 1024 by omega), hdiv, hi, hmod]

/-- A name is found, and the entry is the root directory. -/
theorem mirror_scan {elem : List UInt8} (hlen : names.length ≤ 32) (hm : elem ∈ names) :
    ∃ i, scanEntries ((mirror names).cluster 2) (mirror names).bpb.entriesPerCluster elem = some i ∧
      (mirror names).attr (2, i) = kDirectory ∧ (mirror names).first (2, i) = 2 := by
  obtain ⟨k, hk, hget⟩ := List.mem_iff_getElem.mp hm
  have hname : names[k]? = some elem := by rw [List.getElem?_eq_getElem hk, hget]
  have hn : mirrorBPB.entriesPerCluster = 32 := by decide
  have heq : nameIsEqual ((mirror names).cluster 2) (32 * k) elem = true := by
    unfold nameIsEqual entryName
    rw [List.all_eq_true]
    intro j hj
    rw [List.mem_range] at hj
    rw [mirror_cluster hname (by omega), if_pos hj, beq_self_eq_true]
  rw [show (mirror names).bpb = mirrorBPB from rfl, hn]
  cases hs : scanEntries ((mirror names).cluster 2) 32 elem with
  | none =>
    have hall := List.find?_eq_none.mp hs k (List.mem_range.mpr (by omega))
    exact absurd heq hall
  | some i =>
    obtain ⟨-, -, hbefore⟩ := List.find?_range_eq_some.mp hs
    have hik : i ≤ k := by
      by_contra hlt
      have hne := hbefore k (by omega)
      rw [heq] at hne
      cases hne
    have hi : i < names.length := by omega
    have hiname : names[i]? = some names[i] := List.getElem?_eq_getElem hi
    have hbyte : ∀ j, 12 ≤ j → j < 32 → (mirror names).cluster 2 (32 * i + j) = if j = 26 then 2 else 0 := by
      intro j h1 h2
      rw [mirror_cluster hiname h2, if_neg (by omega), if_neg (by omega)]
    have hattr : (mirror names).cluster 2 (32 * i + 11) = kDirectory := by
      rw [mirror_cluster hiname (by decide), if_neg (by decide), if_pos rfl]
    refine ⟨i, rfl, ?_, ?_⟩
    · rw [Volume.attr, entryAttr]
      exact hattr
    · rw [Volume.first, firstCluster_eq]
      dsimp only
      simp only [load, Nat.add_assoc]
      rw [hbyte 20 (by decide) (by decide), hbyte (20 + 1) (by decide) (by decide), hbyte 26 (by decide) (by decide),
        hbyte (26 + 1) (by decide) (by decide)]
      decide

/-- **A long component is copied**, whatever stands before it. -/
theorem mirror_long (hlen : names.length ≤ 32) : ∀ (n : Nat) {path : List UInt8} {dir : Nat}, path.length ≤ n →
    dir = 0 ∨ dir = 2 → (∃ c ∈ path.splitOn 0x2f, 12 < c.length) →
    (∀ c ∈ path.splitOn 0x2f, c.length ≤ 12 → c ∈ names) →
    ∃ fuel, ∃ elem ∈ findCalls (mirror names) fuel path dir, 12 < elem.length := by
  intro n
  induction n with
  | zero =>
    intro path dir hn _ ⟨c, hc, hlong⟩ _
    obtain rfl := List.eq_nil_of_length_eq_zero (Nat.le_zero.mp hn)
    rw [List.splitOn_nil, List.mem_singleton] at hc
    subst hc
    cases hlong
  | succ n ih =>
    intro path dir hn hdir ⟨c, hc, hlong⟩ hnames
    by_cases helem : 12 < (elemOf path).length
    · exact ⟨0, elemOf path, List.mem_cons_self .., helem⟩
    -- the component is in the rest, so the search goes on in the directory of the first
    obtain ⟨rest, hrest, hcr⟩ : ∃ rest, (nextPathElement (skipSlash path)).2 = some rest ∧ c ∈ rest.splitOn 0x2f := by
      rcases component_cases hc with rfl | rfl | h
      · cases hlong
      · exact absurd hlong helem
      · exact h
    have hne : rest ≠ [] := by
      rintro rfl
      rw [List.splitOn_nil, List.mem_singleton] at hcr
      subst hcr
      cases hlong
    have hshort : rest.length ≤ n := by
      have hskip : (skipSlash path).length ≤ path.length := by
        unfold skipSlash
        split <;> simp
      rcases nextPathElement_split (skipSlash path) with ⟨-, heq⟩ | ⟨elem, rest', hp, -, heq⟩
      · rw [heq] at hrest
        cases hrest
      · rw [heq] at hrest
        obtain rfl := Option.some.inj hrest
        rw [hp, List.length_append, List.length_cons] at hskip
        omega
    obtain ⟨fuel, elem, hmem, h12⟩ := @ih rest 2 hshort (.inr rfl) ⟨c, hcr, hlong⟩ fun d hd =>
      hnames d (components_split hrest d hd)
    obtain ⟨i, hscan, hattr, hfirst⟩ := mirror_scan hlen (hnames _ (elemOf_component path) (by omega))
    refine ⟨fuel + 1, elem, List.mem_cons_of_mem _ ?_, h12⟩
    have hroot : (if path.head? = some 0x2f ∨ dir = 0 then (mirror names).bpb.rootCluster.toNat else dir) = 2 := by
      have h2 : mirrorBPB.rootCluster.toNat = 2 := by decide
      rw [show (mirror names).bpb = mirrorBPB from rfl, h2]
      split
      · rfl
      · rename_i h
        exact hdir.resolve_left fun h0 => h (.inr h0)
    have hstart : findStart (mirror names).bpb path dir = some ⟨2, elemOf path, rest, false, true⟩ := by
      rw [findStart_eq, if_neg helem, hroot, hrest]
      simp only [Option.getD_some, hne, decide_false, Option.isSome_some]
    have hend : ¬ (2 = 0x0fffffff) := by decide
    rw [hstart]
    dsimp only
    rw [lookupCalls]
    dsimp only
    rw [if_neg hend, hscan]
    dsimp only
    rw [if_pos ⟨hattr, rfl⟩, hfirst]
    exact hmem

end Mirror

theorem components_length : ∀ {n : Nat} {path : List UInt8}, path.length ≤ n → (path.splitOn 0x2f).length ≤ n + 1 := by
  intro n
  induction n with
  | zero =>
    intro path hn
    obtain rfl := List.eq_nil_of_length_eq_zero (Nat.le_zero.mp hn)
    simp
  | succ n ih =>
    intro path hn
    rcases nextPathElement_split path with ⟨hno, -⟩ | ⟨elem, rest, hp, hno, -⟩
    · rw [List.splitOn_eq_singleton hno]
      simp
    · have hlen := congrArg List.length hp
      rw [List.length_append, List.length_cons] at hlen
      rw [hp, List.splitOn_append_cons_self_of_not_mem hno, List.length_cons]
      have := @ih rest (by omega)
      omega

theorem openFilename_some {path filename : List UInt8} (h : openFilename path = some filename) :
    filename = path ∧ path.length ≤ 26 := by
  rw [openFilename, copyPath_eq (Nat.zero_le _), Nat.zero_add] at h
  split at h
  · rename_i hle
    exact ⟨(Option.some.inj h).symm, hle⟩
  · cases h

/-! ## The buffer -/

/-- What `NextPathElement` writes for this element and its terminator is in `char path_elem[13]`. -/
def FitsElem (elem : List UInt8) : Prop := elem.length + 1 ≤ 13

/-- Everything copied for the path fits, in `FindFile` from any directory (`ExecFileState` starts in the one of the
applications, `serverstate.cpp:70`) and in `CreateFile`. -/
def ElemsFit (v : Volume) (path : List UInt8) : Prop :=
  ∀ fuel, (∀ dir, ∀ elem ∈ findCalls v fuel path dir, FitsElem elem) ∧ ∀ elem ∈ createCalls v fuel path, FitsElem elem

/-- **The senders' check does not bound an element.** Of the paths that `open` and the terminal send, those fit on every
volume that have no component of more than 12 characters. -/
theorem pathElem_fits {path filename : List UInt8} (h : openFilename path = some filename) :
    executeFilename path = some filename ∧
    ((∀ v : Volume, v.bpb.Geometry → ElemsFit v filename) ↔ ∀ c ∈ filename.splitOn 0x2f, c.length ≤ 12) := by
  obtain ⟨rfl, hlen⟩ := openFilename_some h
  refine ⟨h, fun hfit => ?_, fun hle v _ fuel => ⟨fun dir elem hm => ?_, fun elem hm => ?_⟩⟩
  · by_contra hlong
    push Not at hlong
    have hnames : ((filename.splitOn 0x2f).filter (·.length ≤ 12)).length ≤ 32 :=
      (List.length_filter_le ..).trans ((components_length (Nat.le_refl _)).trans (by omega))
    obtain ⟨fuel, elem, hm, hover⟩ := mirror_long hnames filename.length (Nat.le_refl _) (.inl rfl) hlong
      fun c hc hshort => List.mem_filter.mpr ⟨hc, by simpa using hshort⟩
    have hin := (hfit (mirror _) mirrorBPB_geometry fuel).1 0 elem hm
    unfold FitsElem at hin
    omega
  · exact Nat.succ_le_succ (hle elem (findCalls_components elem hm))
  · exact Nat.succ_le_succ (hle elem (createCalls_components elem hm))

/-- The path `/apps/echo`. -/
theorem pathElem_echo : ElemsFit (mirror []) [0x2f, 0x61, 0x70, 0x70, 0x73, 0x2f, 0x65, 0x63, 0x68, 0x6f] :=
  (@pathElem_fits [0x2f, 0x61, 0x70, 0x70, 0x73, 0x2f, 0x65, 0x63, 0x68, 0x6f] _ rfl).2.mpr (by decide)
    (mirror []) mirrorBPB_geometry

/-- 26 characters without a slash. -/
theorem pathElem_overflow : openFilename (List.replicate 26 0x61) = some (List.replicate 26 0x61) ∧
    ∀ v fuel, ∃ elem ∈ findCalls v fuel (List.replicate 26 0x61) 0, ¬ FitsElem elem := by
  refine ⟨by decide, fun v fuel => ⟨_, List.mem_cons_self .., ?_⟩⟩
  unfold FitsElem
  decide

end KinOS.Fs
