import KinOS.Fs.Create

/-!
# The two readings of a file name

`SetFileName` writes a name as its last dot divides it, `NameIsEqual` reads it part by part: every dot restarts at place 8,
so the parts of a name lie one over the other in the extension, with the end of a long first part below them. `Fits83` says
when the bytes written are the bytes compared with.

| here | there |
| --- | --- |
| `shortName_eq_name83` | `SetFileName` and `NameIsEqual` (`servers/fs/fs.cpp:307-322`, `123-137`) |
-/

namespace KinOS.Fs

/-! ## Parts that lie over one another -/

/-- Every character among the first three of the part is a blank or has one of a later part over it. -/
def Hidden (p : List UInt8) (later : List (List UInt8)) : Prop :=
  ∀ j < 3, ∀ c, p[j]? = some c → c = 0x20 ∨ ∃ q ∈ later, j < q.length

/-- All parts but the last are hidden. -/
def Covered : List (List UInt8) → Prop
  | [] => True
  | [_] => True
  | p :: q :: ps => Hidden p (q :: ps) ∧ Covered (q :: ps)

/-- What the parts of a name put into the extension: the first its end from the ninth character on. -/
def extParts : List (List UInt8) → List (List UInt8)
  | [] => [[]]
  | [p] => [p.drop 8, []]
  | p :: q :: ps => p.drop 8 :: q :: ps

/-- There are at most two parts or the first fills the base, and only the last part shows in the extension. -/
def Fits83 (name : List UInt8) : Prop :=
  ((name.splitOn 0x2e).length ≤ 2 ∨ 8 ≤ ((name.splitOn 0x2e).headD []).length) ∧ Covered (extParts (name.splitOn 0x2e))

/-- A part written over an extension. -/
def overlaid (ext p : List UInt8) : List UInt8 := (p.take 3).map toupper ++ ext.drop (p.take 3).length

/-- The last character that any part has at a place. -/
def shown (j : Nat) (ps : List (List UInt8)) : Option UInt8 := (ps.filterMap fun p => p[j]?).getLast?

theorem toupper_blank {c : UInt8} : toupper c = 0x20 ↔ c = 0x20 := by
  unfold toupper
  split
  · rename_i h
    rw [← UInt8.toNat_inj, ← UInt8.toNat_inj, UInt8.toNat_sub_of_le _ _ (UInt8.le_trans (by decide) h.1)]
    have h1 := UInt8.le_iff_toNat_le.mp h.1
    have h2 : (0x61 : UInt8).toNat = 0x61 := rfl
    have h3 : (0x20 : UInt8).toNat = 0x20 := rfl
    omega
  · rfl

theorem shown_concat {j : Nat} {ps : List (List UInt8)} {p : List UInt8} :
    shown j (ps ++ [p]) = (p[j]?).or (shown j ps) := by
  unfold shown
  rw [List.filterMap_append, List.getLast?_append]
  cases hp : p[j]? with
  | none => simp [hp]
  | some c => simp [hp]

theorem overlaid_get {ext p : List UInt8} {j : Nat} (hj : j < 3) :
    (overlaid ext p)[j]? = ((p[j]?).map toupper).or ext[j]? := by
  unfold overlaid
  by_cases hlt : j < p.length
  · rw [List.getElem?_append_left (by simp; omega), List.getElem?_map, List.getElem?_take_of_lt hj,
      List.getElem?_eq_getElem hlt]
    rfl
  · have hlen : (p.take 3).length = p.length := by rw [List.length_take]; omega
    have hnone : p[j]? = none := List.getElem?_eq_none (by omega)
    rw [List.getElem?_append_right (by simp; omega), List.getElem?_drop, List.length_map, hlen, hnone]
    simp only [Option.map_none, Option.none_or]
    congr 1
    omega

theorem overlaid_length {ext p : List UInt8} (h : ext.length = 3) : (overlaid ext p).length = 3 := by
  unfold overlaid
  simp only [List.length_append, List.length_map, List.length_take, List.length_drop]
  omega

theorem foldl_overlaid_get {j : Nat} (hj : j < 3) : ∀ (ps : List (List UInt8)) {ext : List UInt8},
    (ps.foldl overlaid ext)[j]? = ((shown j ps).map toupper).or ext[j]? := by
  intro ps
  induction ps using List.reverseRecOn with
  | nil => exact fun {_} => rfl
  | append_singleton ps p ih =>
    intro ext
    rw [List.foldl_append, List.foldl_cons, List.foldl_nil, overlaid_get hj, ih, shown_concat]
    cases p[j]? <;> rfl

theorem foldl_over_length : ∀ (ps : List (List UInt8)) {ext : List UInt8}, ext.length = 3 →
    (ps.foldl overlaid ext).length = 3
  | [], _, h => h
  | _ :: ps, _, h => foldl_over_length ps (overlaid_length h)

/-- Parts cover each other when the last that shows behind the end of the last part is a blank. -/
theorem covered_iff : ∀ {ps : List (List UInt8)} {last : List UInt8}, Covered (ps ++ [last]) ↔
    ∀ j < 3, last[j]? = none → ∀ c, shown j ps = some c → c = 0x20
  | [], last => by simp [Covered, shown]
  | p :: ps, last => by
    have ih := @covered_iff ps last
    obtain ⟨q, qs, hq⟩ : ∃ q qs, ps ++ [last] = q :: qs := List.exists_cons_of_ne_nil (by simp)
    have hshown : ∀ {j : Nat}, shown j (p :: ps) = (shown j ps).or p[j]? := by
      intro j
      unfold shown
      rw [List.filterMap_cons]
      cases hp : p[j]? with
      | none => simp
      | some c => rw [List.getLast?_cons]; cases (List.filterMap (fun p => p[j]?) ps).getLast? <;> simp
    have hmem : ∀ {j : Nat}, (∃ r ∈ q :: qs, j < r.length) ↔ last[j]? ≠ none ∨ shown j ps ≠ none := by
      intro j
      rw [← hq]
      constructor
      · rintro ⟨r, hr, hlt⟩
        rcases List.mem_append.mp hr with hr | hr
        · refine .inr fun hnone => ?_
          have hnil := List.getLast?_eq_none_iff.mp hnone
          have hno := List.filterMap_eq_nil_iff.mp hnil r hr
          exact absurd (List.getElem?_eq_none_iff.mp hno) (by omega)
        · obtain rfl := List.mem_singleton.mp hr
          exact .inl fun hnone => absurd (List.getElem?_eq_none_iff.mp hnone) (by omega)
      · rintro (h | h)
        · exact ⟨last, by simp, by rw [ne_eq, List.getElem?_eq_none_iff] at h; omega⟩
        · obtain ⟨c, hc⟩ := Option.ne_none_iff_exists'.mp h
          obtain ⟨r, hr, hrc⟩ := List.mem_filterMap.mp (List.mem_of_getLast? hc)
          exact ⟨r, List.mem_append_left _ hr, (List.getElem?_eq_some_iff.mp hrc).1⟩
    rw [List.cons_append, hq, Covered, ← hq, ih, hq]
    constructor
    · rintro ⟨hhid, hcov⟩ j hj hlast c hc
      rw [hshown] at hc
      cases hs : shown j ps with
      | some d =>
        rw [hs, Option.some_or] at hc
        exact hcov j hj hlast c (hs.trans hc)
      | none =>
        rw [hs, Option.none_or] at hc
        refine (hhid j hj c hc).resolve_right fun hr => ?_
        exact (hmem.mp hr).elim (fun h => h hlast) fun h => h hs
    · intro h
      refine ⟨fun j hj c hc => ?_, fun j hj hlast c hc => h j hj hlast c (by rw [hshown, hc, Option.some_or])⟩
      by_cases hr : ∃ r ∈ q :: qs, j < r.length
      · exact .inr hr
      · rw [hmem, not_or, not_not, not_not] at hr
        exact .inl (h j hj hr.1 c (by rw [hshown, hr.2, Option.none_or, hc]))

/-! ## What `NameIsEqual` compares with -/

/-- Blanks. -/
def blanks (n : Nat) : List UInt8 := List.replicate n 0x20

theorem name83_dot {rest buf : List UInt8} {i : Nat} (hi : i < 11) : name83 (0x2e :: rest) i buf = name83 rest 8 buf := by
  rw [name83, if_pos hi, if_pos rfl]

theorem name83_full {rest buf : List UInt8} {i : Nat} (hi : 11 ≤ i) : name83 rest i buf = buf := by
  cases rest with
  | nil => rfl
  | cons c rest => rw [name83, if_neg (by omega)]

/-- A part written from place `i` on, up to the end. -/
def put (buf : List UInt8) (i : Nat) (p : List UInt8) : List UInt8 :=
  buf.take i ++ (p.take (11 - i)).map toupper ++ buf.drop (i + (p.take (11 - i)).length)

theorem put_end {buf p : List UInt8} (h : buf.length = 11) : put buf 11 p = buf := by
  simp [put, ← h]

theorem put_cons {buf p : List UInt8} {i : Nat} {c : UInt8} (h : buf.length = 11) (hi : i < 11) :
    put (buf.set i (toupper c)) (i + 1) p = put buf i (c :: p) := by
  have htake : (buf.set i (toupper c)).take (i + 1) = buf.take i ++ [toupper c] := by
    rw [List.take_add_one, List.getElem?_set_self (by omega), List.take_set_of_le (Nat.le_refl _)]
    rfl
  have hcut : (c :: p).take (11 - i) = c :: p.take (11 - (i + 1)) := by
    rw [show 11 - i = 11 - (i + 1) + 1 by omega, List.take_succ_cons]
  rw [put, put, htake, hcut, List.map_cons, List.length_cons, List.drop_set_of_lt (by omega), List.append_assoc,
    List.append_assoc, List.append_assoc, List.singleton_append, List.cons_append]
  congr 4
  omega

/-- **A part without a dot** is written from its place on. -/
theorem name83_part : ∀ {p rest buf : List UInt8} {i : Nat}, 0x2e ∉ p → buf.length = 11 → i ≤ 11 →
    name83 (p ++ rest) i buf = name83 rest (min (i + p.length) 11) (put buf i p)
  | [], rest, buf, i, _, hb, hi => by
    have hput : put buf i [] = buf := by simp [put]
    rw [hput, List.nil_append, List.length_nil, Nat.add_zero, Nat.min_eq_left hi]
  | c :: p, rest, buf, i, hp, hb, hi => by
    rw [List.mem_cons, not_or] at hp
    rcases Nat.lt_or_eq_of_le hi with hlt | rfl
    · rw [List.cons_append, name83, if_pos hlt, if_neg (Ne.symm hp.1), name83_part hp.2 (by rw [List.length_set, hb]) hlt,
        put_cons hb hlt, List.length_cons]
      congr 1
      omega
    · rw [put_end hb, name83_full (Nat.le_refl _), name83_full (by omega)]

/-- Behind the first dot only the extension changes. -/
theorem name83_base : ∀ {xs buf : List UInt8} {i : Nat}, 8 ≤ i → (name83 xs i buf).take 8 = buf.take 8
  | [], _, _, _ => rfl
  | c :: xs, buf, i, hi => by
    rw [name83]
    split
    · split
      · exact name83_base (Nat.le_refl 8)
      · rw [name83_base (by omega), List.take_set_of_le hi]
    · rfl

/-- The parts behind the first, each with its dot. -/
def dotted (ps : List (List UInt8)) : List UInt8 := ps.flatMap (0x2e :: ·)

theorem intercalate_dotted : ∀ {p : List UInt8} {ps : List (List UInt8)}, [0x2e].intercalate (p :: ps) = p ++ dotted ps
  | p, [] => by rw [List.intercalate_singleton, dotted, List.flatMap_nil, List.append_nil]
  | p, q :: ps => by
    rw [List.intercalate_cons_cons, intercalate_dotted, dotted, dotted, List.flatMap_cons, List.append_assoc,
      List.singleton_append, List.cons_append]

section Parts

variable {base ext : List UInt8}

theorem put_ext (hb : base.length = 8) (p : List UInt8) :
    put (base ++ ext) 8 p = base ++ overlaid ext p := by
  have htake : (base ++ ext).take 8 = base := by rw [← hb, List.take_left]
  have hdrop : ∀ n, (base ++ ext).drop (8 + n) = ext.drop n := by
    intro n
    rw [← hb, List.drop_append]
    simp
  rw [put, htake, hdrop, overlaid, List.append_assoc]

theorem name83_dotted : ∀ {ps : List (List UInt8)} {ext : List UInt8} {i : Nat}, base.length = 8 → ext.length = 3 → i < 11 →
    (∀ p ∈ ps, 0x2e ∉ p) → (∀ p ∈ ps.dropLast, p.length < 3) →
    name83 (dotted ps) i (base ++ ext) = base ++ ps.foldl overlaid ext
  | [], _, _, _, _, _, _, _ => rfl
  | p :: ps, ext, i, hb, he, hi, hdots, hshort => by
    have hcons : dotted (p :: ps) = 0x2e :: (p ++ dotted ps) := by
      rw [dotted, List.flatMap_cons]
      rfl
    rw [hcons, name83_dot hi, name83_part (hdots p (by simp)) (by rw [List.length_append]; omega) (by decide),
      put_ext hb, List.foldl_cons]
    cases ps with
    | nil => rfl
    | cons q ps =>
      have hp : p.length < 3 := hshort p (by simp)
      exact name83_dotted hb (overlaid_length he) (by omega) (fun r hr => hdots r (List.mem_cons_of_mem _ hr))
        fun r hr => hshort r (by rw [List.dropLast_cons_cons]; exact List.mem_cons_of_mem _ hr)

end Parts

theorem padded_length (n : Nat) (name : List UInt8) : (padded n name).length = n := by
  simp only [padded, List.length_append, List.length_map, List.length_take, List.length_replicate]
  omega

theorem padded_over (ext : List UInt8) : padded 3 ext = overlaid (blanks 3) ext := by
  simp only [padded, overlaid, blanks, List.length_map, List.drop_replicate]

/-- The first part, over blanks. -/
theorem put_first (p : List UInt8) : put (blanks 11) 0 p = padded 8 p ++ overlaid (blanks 3) (p.drop 8) := by
  have hsplit : p.take (8 + 3) = p.take 8 ++ (p.drop 8).take 3 := List.take_add
  rw [put, padded, overlaid, Nat.sub_zero, List.take_zero, List.nil_append, show 11 = 8 + 3 from rfl, hsplit,
    List.map_append, Nat.zero_add, blanks, List.drop_replicate, blanks, List.drop_replicate]
  by_cases h8 : 8 ≤ p.length
  · have hlen : (p.take 8).length = 8 := by rw [List.length_take]; omega
    simp only [List.length_append, List.length_map, hlen, Nat.sub_self, List.replicate_zero, List.append_nil,
      List.append_assoc]
    congr 3
    omega
  · have hnil : p.drop 8 = [] := List.drop_eq_nil_of_le (by omega)
    have hlen : (p.take 8).length = p.length := by rw [List.length_take]; omega
    simp only [hnil, List.take_nil, List.map_nil, List.append_nil, List.nil_append, List.length_map, hlen, List.length_nil,
      Nat.sub_zero, List.append_assoc, List.replicate_append_replicate]
    congr 2
    omega

/-! ## The bytes written and the bytes compared with -/

theorem strrchr_concat {a b : List UInt8} {ch : UInt8} (h : ch ∉ b) : strrchr (a ++ ch :: b) ch = some (a, b) := by
  have hb : ∀ c ∈ b.reverse, (decide (c ≠ ch)) = true := by
    intro c hc
    rw [decide_eq_true_eq]
    rintro rfl
    exact h (List.mem_reverse.mp hc)
  have hrev : (a ++ ch :: b).reverse = b.reverse ++ ch :: a.reverse := by simp
  rw [strrchr, if_pos (by simp), hrev, List.dropWhile_append_of_pos hb, List.takeWhile_append_of_pos hb]
  simp

theorem strrchr_none {xs : List UInt8} {ch : UInt8} (h : ch ∉ xs) : strrchr xs ch = none := by
  rw [strrchr, if_neg h]

/-- What `SetFileName` writes for a name of these parts. -/
theorem shortName_parts {p : List UInt8} (hp : 0x2e ∉ p) : shortName p = padded 8 p ++ blanks 3 := by
  simp only [shortName, strrchr_none hp]
  rfl

theorem shortName_dotted {p last : List UInt8} {mid : List (List UInt8)} (hlast : 0x2e ∉ last) :
    shortName (p ++ dotted (mid ++ [last])) = padded 8 (p ++ dotted mid) ++ overlaid (blanks 3) last := by
  have hsplit : p ++ dotted (mid ++ [last]) = (p ++ dotted mid) ++ 0x2e :: last := by
    simp [dotted]
  simp only [shortName, hsplit, strrchr_concat hlast, padded_over]

theorem list3_ext {a b : List UInt8} (ha : a.length = 3) (hb : b.length = 3) (h : ∀ j < 3, a[j]? = b[j]?) : a = b := by
  apply List.ext_getElem?
  intro j
  by_cases hj : j < 3
  · exact h j hj
  · rw [List.getElem?_eq_none (by omega), List.getElem?_eq_none (by omega)]

theorem blanks_get {j : Nat} (hj : j < 3) : (blanks 3)[j]? = some 0x20 := by
  rw [blanks, List.getElem?_replicate, if_pos hj]

/-- **The extension is that of the last part** when the parts cover each other. -/
theorem foldl_over_last {ps : List (List UInt8)} {last : List UInt8} :
    (ps ++ [last]).foldl overlaid (blanks 3) = overlaid (blanks 3) last ↔ Covered (ps ++ [last]) := by
  rw [covered_iff]
  have hget : ∀ j < 3, ((ps ++ [last]).foldl overlaid (blanks 3))[j]? =
      ((last[j]?).map toupper).or (((shown j ps).map toupper).or (some 0x20)) := by
    intro j hj
    rw [foldl_overlaid_get hj, shown_concat, blanks_get hj]
    cases last[j]? <;> rfl
  constructor
  · intro h j hj hlast c hc
    have hj' := hget j hj
    rw [h, overlaid_get hj, hlast, hc, blanks_get hj] at hj'
    exact toupper_blank.mp (by simpa using hj'.symm)
  · intro h
    refine list3_ext (foldl_over_length _ (by simp [blanks])) (overlaid_length (by simp [blanks])) fun j hj => ?_
    rw [hget j hj, overlaid_get hj, blanks_get hj]
    cases hlast : last[j]? with
    | some c => rfl
    | none =>
      cases hs : shown j ps with
      | none => rfl
      | some c =>
        rw [h j hj hlast c hs]
        rfl

/-- A first part with more parts behind it fills the base, or its end shows. -/
theorem padded_base {p q : List UInt8} {ps : List (List UInt8)} : padded 8 p = padded 8 (p ++ dotted (q :: ps)) ↔
    8 ≤ p.length := by
  constructor
  · intro h
    by_contra hlt
    have h1 : (padded 8 p)[p.length]? = some 0x20 := by
      rw [padded, List.getElem?_append_right (by simp), List.getElem?_replicate, if_pos (by simp; omega)]
    have h2 : (padded 8 (p ++ dotted (q :: ps)))[p.length]? = some 0x2e := by
      have hdot : (p ++ dotted (q :: ps))[p.length]? = some 0x2e := by simp [dotted]
      have hlen : p.length < (p ++ dotted (q :: ps)).length := (List.getElem?_eq_some_iff.mp hdot).1
      rw [padded, List.getElem?_append_left (by simp; simp at hlen; omega), List.getElem?_map,
        List.getElem?_take_of_lt (by omega), hdot]
      rfl
    rw [h, h2] at h1
    cases h1
  · intro h
    rw [padded, padded, List.take_append_of_le_length h]

theorem dotted_cons {p : List UInt8} {ps : List (List UInt8)} : (dotted (p :: ps)).length = p.length + 1 +
    (dotted ps).length := by
  rw [dotted, List.flatMap_cons, List.length_append, List.length_cons]
  rfl

/-- The parts have no dot. -/
theorem splitOn_not_mem {a : UInt8} : ∀ {xs : List UInt8}, ∀ q ∈ xs.splitOn a, a ∉ q
  | [], q, hq => by
    rw [List.splitOn_nil, List.mem_singleton] at hq
    simp [hq]
  | x :: xs, q, hq => by
    have ih := @splitOn_not_mem a xs
    rw [List.splitOn_cons_eq_if_modifyHead] at hq
    by_cases hx : x = a
    · rw [if_pos (by simpa using hx)] at hq
      rcases List.mem_cons.mp hq with rfl | hq
      · simp
      · exact ih q hq
    · rw [if_neg (by simpa using hx)] at hq
      obtain ⟨r, rs, hr⟩ := List.exists_cons_of_ne_nil (List.splitOn_ne_nil a xs)
      rw [hr, List.modifyHead_cons] at hq
      rcases List.mem_cons.mp hq with rfl | hq
      · have hr' := ih r (by rw [hr]; exact List.mem_cons_self ..)
        simp [hr', Ne.symm hx]
      · exact ih q (by rw [hr]; exact List.mem_cons_of_mem _ hq)

theorem dotted_length : ∀ {ps : List (List UInt8)} {p : List UInt8}, p ∈ ps → p.length + 1 ≤ (dotted ps).length
  | q :: ps, p, h => by
    have hlen := @dotted_cons q ps
    rcases List.mem_cons.mp h with rfl | h
    · omega
    · have := dotted_length h
      omega

/-- What `NameIsEqual` compares with, when no part but the last ends it. -/
theorem name83_parts {p : List UInt8} {ps : List (List UInt8)} (hdots : ∀ q ∈ p :: ps, 0x2e ∉ q)
    (hlen : (p ++ dotted ps).length ≤ 12) (hshort : ∀ q ∈ ps.dropLast, q.length < 3) :
    name83 (p ++ dotted ps) 0 (blanks 11) = padded 8 p ++ (p.drop 8 :: ps).foldl overlaid (blanks 3) := by
  have hb : (blanks 11).length = 11 := by simp [blanks]
  rw [name83_part (hdots p (by simp)) hb (by decide), put_first, Nat.zero_add, List.foldl_cons]
  by_cases hp : p.length < 11
  · rw [Nat.min_eq_left (by omega)]
    exact name83_dotted (padded_length 8 p) (overlaid_length (by simp [blanks])) hp
      (fun q hq => hdots q (List.mem_cons_of_mem _ hq)) hshort
  · -- at most a dot follows
    rw [List.length_append] at hlen
    rw [Nat.min_eq_right (by omega), name83_full (Nat.le_refl _)]
    cases ps with
    | nil => rfl
    | cons q ps =>
      have hq := @dotted_cons q ps
      have hq0 : q = [] := List.eq_nil_of_length_eq_zero (by omega)
      cases ps with
      | nil =>
        subst hq0
        simp [overlaid]
      | cons r ps =>
        have hr := @dotted_length (r :: ps) r (by simp)
        omega

/-- **The bytes written are the bytes compared with** exactly for the names that fit. -/
theorem shortName_eq_name83 {name : List UInt8} (hlen : name.length ≤ 12) :
    shortName name = name83 name 0 (blanks 11) ↔ Fits83 name := by
  obtain ⟨p, ps, hsplit⟩ := List.exists_cons_of_ne_nil (List.splitOn_ne_nil 0x2e name)
  have hname : name = p ++ dotted ps := by
    rw [← intercalate_dotted, ← hsplit, List.intercalate_splitOn]
  have hdots : ∀ q ∈ p :: ps, 0x2e ∉ q := by
    rw [← hsplit]
    exact splitOn_not_mem
  unfold Fits83
  rw [hsplit]
  subst hname
  rcases List.eq_nil_or_concat ps with rfl | ⟨mid, last, rfl⟩
  · -- no dot: the name is its base
    have hnil : dotted [] = [] := rfl
    have hcov := @foldl_over_last [p.drop 8] []
    have hblank : overlaid (blanks 3) [] = blanks 3 := by simp [overlaid]
    rw [hblank] at hcov
    rw [name83_parts hdots hlen (by simp), hnil, List.append_nil, shortName_parts (hdots p (by simp)),
      List.append_right_inj]
    constructor
    · intro h
      exact ⟨.inl (by simp), hcov.mp h.symm⟩
    · rintro ⟨-, h⟩
      exact (hcov.mpr h).symm
  · rw [List.concat_eq_append] at *
    have hlast : 0x2e ∉ last := hdots last (by simp)
    have hparts : extParts (p :: (mid ++ [last])) = p.drop 8 :: (mid ++ [last]) := by
      cases mid <;> rfl
    have hcov := @foldl_over_last (p.drop 8 :: mid) last
    rw [List.cons_append] at hcov
    rw [hparts, shortName_dotted hlast, List.headD_cons, ← hcov]
    by_cases hgood : mid = [] ∨ 8 ≤ p.length
    · have hshort : ∀ q ∈ (mid ++ [last]).dropLast, q.length < 3 := by
        rw [List.dropLast_concat]
        intro q hq
        rcases hgood with rfl | h8
        · simp at hq
        · have h1 := dotted_length hq
          have h2 : (dotted (mid ++ [last])).length = (dotted mid).length + (last.length + 1) := by
            rw [dotted, List.flatMap_append, List.length_append]
            simp [dotted]
          rw [List.length_append] at hlen
          omega
      have hbase : padded 8 (p ++ dotted mid) = padded 8 p := by
        rcases hgood with rfl | h8
        · rw [show dotted [] = [] from rfl, List.append_nil]
        · rw [padded, padded, List.take_append_of_le_length h8]
      have hcount : (p :: (mid ++ [last])).length ≤ 2 ∨ 8 ≤ p.length := by
        rcases hgood with rfl | h8
        · exact .inl (by simp)
        · exact .inr h8
      rw [name83_parts hdots hlen hshort, hbase, List.append_right_inj]
      constructor
      · intro h
        exact ⟨hcount, h.symm⟩
      · rintro ⟨-, h⟩
        exact h.symm
    · -- a short first part with two dots behind it
      rw [not_or] at hgood
      obtain ⟨hmid, h8⟩ := hgood
      obtain ⟨q, qs, rfl⟩ := List.exists_cons_of_ne_nil hmid
      refine iff_of_false (fun heq => h8 ?_) fun ⟨hc, _⟩ => ?_
      · have htake := congrArg (List.take 8) heq
        have hb : (blanks 11).length = 11 := by simp [blanks]
        have hdot : dotted (q :: qs ++ [last]) = 0x2e :: (q ++ dotted (qs ++ [last])) := by simp [dotted]
        rw [List.take_left' (padded_length ..), name83_part (hdots p (by simp)) hb (by decide), put_first, hdot,
          name83_dot (by omega), name83_base (Nat.le_refl 8), List.take_left' (padded_length ..)] at htake
        exact padded_base.mp htake.symm
      · rcases hc with hc | hc
        · simp at hc
        · exact h8 hc

end KinOS.Fs
