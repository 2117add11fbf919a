import KinOS.Kernel.Isolation

/-!
# Tearing an address space down

`CleanPageMaps` walks the page maps, frees the frame of every entry that is present and writable, and clears the
entries. Over a tree whose entries own their frames (`Tree`) it frees each of them once (`Cleaned`), whatever the tree
has become since `CopyPageMaps` built it.
-/

namespace KinOS.Paging

section
variable {mem : Memory} {root t u : Nat} {P Q : Fin 512 → Prop} {d : Nat} {i j k : Fin 512} {q : Path}

/-! ## Entries below an entry -/

theorem Top.mono_left (h : ∀ i, P i → Q i) : ∀ {q : Path}, Top P q → Top Q q
  | [], _ => trivial
  | [i], hp => h i hp
  | _ :: j :: q, hp => Top.mono_left h (q := j :: q) hp

theorem Top.or : ∀ {q : Path}, Top (fun k => P k ∨ Q k) q → Top P q ∨ Top Q q
  | [], _ => .inl trivial
  | [_], h => h
  | _ :: j :: q, h => Top.or (q := j :: q) h

theorem Top.disjoint (h : ∀ k, P k → ¬ Q k) : ∀ {q : Path}, q ≠ [] → Top P q → ¬ Top Q q
  | [], hq, _, _ => hq rfl
  | [i], _, hp, hq => h i hp hq
  | _ :: j :: q, _, hp, hq => Top.disjoint h (q := j :: q) (by simp) hp hq

theorem top_true : ∀ {q : Path}, Top (fun _ => True) q
  | [] => trivial
  | [_] => trivial
  | _ :: j :: q => top_true (q := j :: q)

theorem top_concat : ∀ {q : Path}, Top P (q ++ [k]) ↔ P k
  | [] => Iff.rfl
  | [_] => Iff.rfl
  | _ :: j :: q => top_concat (q := j :: q)

theorem tableAt_concat : ∀ {q : Path}, tableAt mem root (q ++ [k]) =
    if (mem root k).present then tableAt mem (mem root k).pointer q else none
  | [] => rfl
  | i :: q => by
    rw [List.cons_append, tableAt, tableAt_concat (q := q)]
    cases h : (mem root k).present <;> simp [tableAt]

/-- An entry of a tree is one of the root, or one of the tree below an entry of the root. -/
theorem slot_split (h : Slot mem root P d q u j) : q = [] ∧ u = root ∧ P j ∨
    ∃ q' k, q = q' ++ [k] ∧ P k ∧ (mem root k).present = true ∧
      Slot mem (mem root k).pointer (fun _ => True) (d - 1) q' u j := by
  rcases List.eq_nil_or_concat q with rfl | ⟨q', k, rfl⟩
  · exact .inl ⟨rfl, (Option.some.inj h.table).symm, h.top⟩
  · rw [List.concat_eq_append] at h ⊢
    obtain ⟨htab, htop, hlen⟩ := h
    rw [tableAt_concat] at htab
    rw [List.length_append, List.length_singleton] at hlen
    split at htab
    · next hp =>
      refine .inr ⟨q', k, rfl, ?_, hp, htab, ?_, by omega⟩
      · exact (top_concat (q := j :: q')).mp htop
      · exact top_true
    · cases htab

theorem slot_join (hk : P k) (hp : (mem root k).present = true)
    (h : Slot mem (mem root k).pointer (fun _ => True) (d - 1) q u j) : Slot mem root P d (q ++ [k]) u j := by
  obtain ⟨htab, -, hlen⟩ := h
  refine ⟨?_, (top_concat (q := j :: q)).mpr hk, ?_⟩
  · rw [tableAt_concat, if_pos hp, htab]
  · rw [List.length_append, List.length_singleton]
    omega

theorem Tree.mono (h : Tree mem root Q d) (hPQ : ∀ i, P i → Q i) : Tree mem root P d := by
  have hs : ∀ {p t i}, Slot mem root P d p t i → Slot mem root Q d p t i := fun ⟨h1, h2, h3⟩ =>
    ⟨h1, h2.mono_left hPQ, h3⟩
  exact ⟨fun h1 => h.inner (hs h1), fun h1 h2 => h.inj (hs h1) (hs h2), fun h1 => h.root (hs h1)⟩

/-- The tree below an entry that owns its frame. -/
theorem Tree.child (h : Tree mem root P d) (hd : 1 < d) (hk : P k) (hp : (mem root k).present = true) :
    Tree mem (mem root k).pointer (fun _ => True) (d - 1) := by
  have hroot : Slot mem root P d [] root k := ⟨rfl, hk, by simpa using Nat.lt_of_succ_lt hd⟩
  have hown : (mem root k).Owns := ⟨hp, h.inner hroot (by simpa using hd) hp⟩
  refine ⟨fun {p t i} hs hlen hpres => ?_, fun {p t i q u j} hs hs' ho ho' he => ?_, fun {p t i} hs ho he => ?_⟩
  · refine h.inner (slot_join hk hp hs) ?_ hpres
    rw [List.length_append, List.length_singleton]
    omega
  · have := h.inj (slot_join hk hp hs) (slot_join hk hp hs') ho ho' he
    obtain ⟨rfl, hpq⟩ := List.cons.inj this
    rw [List.append_cancel_right hpq]
  · have := h.inj (slot_join hk hp hs) hroot ho hown he
    simp at this

/-- Entries that change nothing the tree reads keep the tree. -/
theorem Tree.congr {mem' : Memory} (h : Tree mem root P d)
    (hmem : ∀ {q u j}, Slot mem root P d q u j → mem' u j = mem u j) : Tree mem' root P d := by
  have hs := fun {q u j} => slot_congr hmem (q := q) (u := u) (j := j)
  refine ⟨fun {p t i} h1 hd hp => ?_, fun {p t i q u j} h1 h2 ho ho' he => ?_, fun {p t i} h1 ho => ?_⟩
  · have h1 := hs.mp h1
    rw [hmem h1] at hp ⊢
    exact h.inner h1 hd hp
  · have h1 := hs.mp h1
    have h2 := hs.mp h2
    rw [hmem h1] at ho he
    rw [hmem h2] at ho' he
    exact h.inj h1 h2 ho ho' he
  · have h1 := hs.mp h1
    rw [hmem h1] at ho ⊢
    exact h.root h1 ho

end

/-! ## `CleanPageMap` -/

/-- From `s` to `s'` the entries of the page map `t` with an index in `P` are cleared, with all below them. -/
structure Cleaned (t : Nat) (P : Fin 512 → Prop) (d : Nat) (s s' : Machine) (freed : List Nat) : Prop where
  frees : s'.frees = s.frees ++ freed
  nodup : freed.Nodup
  mem_freed : ∀ f, f ∈ freed ↔ ∃ q u j, Slot s.mem t P d q u j ∧ (s.mem u j).Owns ∧ (s.mem u j).pointer = f
  marks : ∀ f, s'.mgr.getBit f = true ↔ s.mgr.getBit f = true ∧ f ∉ freed
  other : ∀ g, g ≠ t → (∀ q, q ≠ [] → Top P q → q.length < d → tableAt s.mem t q ≠ some g) → s'.mem g = s.mem g
  cleared : ∀ j, P j → (s.mem t j).present = true → s'.mem t j = .zero
  kept : ∀ j, ¬ (P j ∧ (s.mem t j).present = true) → s'.mem t j = s.mem t j
  cr3 : s'.cr3 = s.cr3

section
variable {t d : Nat} {i : Fin 512} {s s' s1 : Machine} {P Q : Fin 512 → Prop} {F F' : List Nat}

/-- Nothing to clear. -/
theorem Cleaned.refl (h : ∀ j, P j → (s.mem t j).present = false) : Cleaned t P d s s [] where
  frees := by simp
  nodup := .nil
  mem_freed f := by
    refine ⟨fun h => absurd h (by simp), ?_⟩
    rintro ⟨q, u, j, hs, ho, -⟩
    rcases slot_split hs with ⟨rfl, rfl, hj⟩ | ⟨q', k, rfl, hk, hp, -⟩
    · exact absurd ho.1 (Bool.eq_false_iff.mp (h j hj))
    · exact absurd hp (Bool.eq_false_iff.mp (h k hk))
  marks f := by simp
  other _ _ _ := rfl
  cleared j hj hp := absurd hp (Bool.eq_false_iff.mp (h j hj))
  kept _ _ := rfl
  cr3 := rfl

/-- Clearing some entries leaves the entries of the others alone. -/
theorem Cleaned.entry_eq (h : Cleaned t P d s s' F) (htree : Tree s.mem t (fun k => P k ∨ Q k) d)
    (hPQ : ∀ k, P k → ¬ Q k) {q : Path} {u : Nat} {j : Fin 512} (hs : Slot s.mem t Q d q u j) :
    s'.mem u j = s.mem u j := by
  rcases slot_split hs with ⟨rfl, rfl, hj⟩ | ⟨q', k, rfl, hk, hp, hs'⟩
  · exact h.kept j fun hc => hPQ j hc.1 hj
  · have hall : Slot s.mem t (fun k => P k ∨ Q k) d (q' ++ [k]) u j := slot_join (.inr hk) hp hs'
    rw [h.other u ?_ ?_]
    · rintro rfl
      obtain hq := htree.table_inj (p := []) rfl hall.table trivial hall.top.tail
        (Nat.lt_of_le_of_lt (Nat.zero_le _) hall.depth)
        hall.depth
      simp at hq
    · intro r hr hrt hrd hru
      have := htree.table_inj hru hall.table (hrt.mono_left fun _ => .inl) hall.top.tail hrd hall.depth
      rw [this] at hrt
      exact hPQ k (top_concat.mp hrt) hk

/-- Clearing some entries and then others. -/
theorem Cleaned.trans (h1 : Cleaned t P d s s1 F) (h2 : Cleaned t Q d s1 s' F')
    (htree : Tree s.mem t (fun k => P k ∨ Q k) d) (hPQ : ∀ k, P k → ¬ Q k) :
    Cleaned t (fun k => P k ∨ Q k) d s s' (F ++ F') := by
  have hentry := fun {q u j} => h1.entry_eq htree hPQ (q := q) (u := u) (j := j)
  have hslots : ∀ {q u j}, Slot s1.mem t Q d q u j ↔ Slot s.mem t Q d q u j := slot_congr hentry
  have hleft : ∀ {q u j}, Slot s.mem t P d q u j → Slot s.mem t (fun k => P k ∨ Q k) d q u j := fun ⟨a, b, c⟩ =>
    ⟨a, b.mono_left fun _ => .inl, c⟩
  have hright : ∀ {q u j}, Slot s.mem t Q d q u j → Slot s.mem t (fun k => P k ∨ Q k) d q u j := fun ⟨a, b, c⟩ =>
    ⟨a, b.mono_left fun _ => .inr, c⟩
  have hF' : ∀ f, f ∈ F' ↔ ∃ q u j, Slot s.mem t Q d q u j ∧ (s.mem u j).Owns ∧ (s.mem u j).pointer = f := by
    intro f
    rw [h2.mem_freed]
    refine exists_congr fun q => exists_congr fun u => exists_congr fun j => ?_
    rw [hslots]
    refine and_congr_right fun hs => ?_
    rw [hentry hs]
  refine ⟨?_, ?_, fun f => ?_, fun f => ?_, fun g hg hno => ?_, fun j hj hp => ?_, fun j hj => ?_, h2.cr3.trans h1.cr3⟩
  · rw [h2.frees, h1.frees, List.append_assoc]
  · refine List.nodup_append.mpr ⟨h1.nodup, h2.nodup, fun a ha b hb he => ?_⟩
    subst he
    obtain ⟨q, u, j, hs, ho, he⟩ := (h1.mem_freed a).mp ha
    obtain ⟨q', u', j', hs', ho', he'⟩ := (hF' a).mp hb
    have := htree.inj (hleft hs) (hright hs') ho ho' (he.trans he'.symm)
    have htop := hs.top
    rw [this] at htop
    exact htop.disjoint hPQ (by simp) hs'.top
  · rw [List.mem_append, h1.mem_freed, hF']
    constructor
    · rintro (⟨q, u, j, hs, ho, he⟩ | ⟨q, u, j, hs, ho, he⟩)
      · exact ⟨q, u, j, hleft hs, ho, he⟩
      · exact ⟨q, u, j, hright hs, ho, he⟩
    · rintro ⟨q, u, j, ⟨a, b, c⟩, ho, he⟩
      rcases b.or with b | b
      · exact .inl ⟨q, u, j, ⟨a, b, c⟩, ho, he⟩
      · exact .inr ⟨q, u, j, ⟨a, b, c⟩, ho, he⟩
  · rw [h2.marks, h1.marks, List.mem_append, not_or, and_assoc]
  · rw [h2.other g hg ?_, h1.other g hg fun q hq htop hlen => hno q hq (htop.mono_left fun _ => .inl) hlen]
    intro q hq htop hlen htab
    cases q with
    | nil => exact hq rfl
    | cons j q =>
      have hs : Slot s1.mem t Q d (j :: q) g 0 := ⟨htab, htop, hlen⟩
      exact hno (j :: q) hq (htop.mono_left fun _ => .inr) hlen (hslots.mp hs).table
  · by_cases hP : P j
    · rw [h2.kept j fun hc => hPQ j hP hc.1, h1.cleared j hP hp]
    · have hkept := h1.kept j fun hc => hP hc.1
      exact h2.cleared j (hj.resolve_left hP) (hkept ▸ hp)
  · have hkept := h1.kept j fun hc => hj ⟨.inl hc.1, hc.2⟩
    rw [h2.kept j fun hc => hj ⟨.inr hc.1, hkept ▸ hc.2⟩, hkept]

/-- The recursive call clears the page map it is given. -/
def CleanSpec (d : Nat) (run : Nat → KernelM Unit) : Prop :=
  ∀ (t : Nat) (s : Machine), Tree s.mem t (fun _ => True) d →
    After (run t) s (fun _ s' => ∃ freed, Cleaned t (fun _ => True) d s s' freed) (fun _ _ => False)

theorem freeFrame_spec (f : Nat) (s : Machine) : ∃ s', freeFrame f s = .ok ⟨⟩ s' ∧ s'.mem = s.mem ∧ s'.cr3 = s.cr3 ∧
    s'.frees = s.frees ++ [f] ∧ ∀ g, s'.mgr.getBit g = true ↔ s.mgr.getBit g = true ∧ g ≠ f := by
  refine ⟨_, rfl, rfl, rfl, rfl, fun g => ?_⟩
  change (BitmapMemoryManager.setBits _ false f 1).getBit g = true ↔ _
  rw [BitmapMemoryManager.getBit_setBits]
  by_cases hg : g = f
  · rw [if_pos (by omega)]
    simp [hg]
  · rw [if_neg (by omega)]
    simp [hg]

/-- The page maps below the frame `c` are cleared, if there are any. -/
structure Emptied (c d : Nat) (s s' : Machine) (freed : List Nat) : Prop where
  frees : s'.frees = s.frees ++ freed
  nodup : freed.Nodup
  mem_freed : ∀ f, f ∈ freed ↔ ∃ q u j, Slot s.mem c (fun _ => True) d q u j ∧ (s.mem u j).Owns ∧ (s.mem u j).pointer = f
  marks : ∀ f, s'.mgr.getBit f = true ↔ s.mgr.getBit f = true ∧ f ∉ freed
  other : ∀ g, (∀ q : Path, q.length < d → tableAt s.mem c q ≠ some g) → s'.mem g = s.mem g
  cr3 : s'.cr3 = s.cr3

theorem emptied_spec {child : Nat → KernelM Unit} {c : Nat} (hchild : 1 < d → CleanSpec (d - 1) child)
    (htree : 1 < d → Tree s.mem c (fun _ => True) (d - 1)) :
    After (if d > 1 then child c else pure ⟨⟩) s (fun _ s' => ∃ freed, Emptied c (d - 1) s s' freed)
      (fun _ _ => False) := by
  refine .ite (fun hd => (hchild hd c s (htree hd)).imp ?_ fun _ _ => id) fun hd => .pure ⟨[], ?_⟩
  · rintro _ s' ⟨freed, h⟩
    refine ⟨freed, h.frees, h.nodup, h.mem_freed, h.marks, fun g hg => h.other g ?_ fun q _ _ hlen => hg q hlen, h.cr3⟩
    rintro rfl
    exact hg [] (by simpa using Nat.sub_pos_of_lt hd) rfl
  · refine ⟨by simp, .nil, fun f => ⟨fun h => absurd h (by simp), ?_⟩, by simp, fun _ _ => rfl, rfl⟩
    rintro ⟨q, u, j, hs, -⟩
    have := hs.depth
    omega

/-- **One entry** of `CleanPageMap`. -/
theorem cleanEntry_spec {child : Nat → KernelM Unit} (hchild : 1 < d → CleanSpec (d - 1) child) (hd : 0 < d)
    (htree : Tree s.mem t (· = i) d) :
    After (cleanEntry child t d i) s (fun _ s' => ∃ freed, Cleaned t (· = i) d s s' freed) (fun _ _ => False) := by
  refine .get_bind (.ite (fun hp => ?_) fun hp => .pure ⟨[], .refl fun j hj => ?_⟩)
  swap
  · rw [hj]
    exact Bool.eq_false_iff.mpr hp
  have hroot : Slot s.mem t (· = i) d [] t i := ⟨rfl, rfl, hd⟩
  have hbelow : ∀ {q u j}, Slot s.mem (s.mem t i).pointer (fun _ => True) (d - 1) q u j →
      Slot s.mem t (· = i) d (q ++ [i]) u j := fun h => slot_join rfl hp h
  refine .bind (emptied_spec hchild fun h1 => htree.child h1 rfl hp) ?_
  rintro _ s1 ⟨F1, h1⟩
  -- the page map itself is not below its entry
  have ht : s1.mem t = s.mem t := by
    refine h1.other t fun q hlen hq => ?_
    have hq' : tableAt s.mem t (q ++ [i]) = some t := by
      rw [tableAt_concat, if_pos hp, hq]
    have := htree.table_inj (p := []) rfl hq' trivial (top_concat.mpr rfl) hd (by simp; omega)
    simp at this
  refine .bind (Q := fun _ s2 => s2.mem = s1.mem ∧ s2.cr3 = s1.cr3 ∧ ∃ F2, s2.frees = s1.frees ++ F2 ∧ F2.Nodup ∧
    (∀ f, f ∈ F2 ↔ (s.mem t i).Owns ∧ (s.mem t i).pointer = f) ∧
    ∀ f, s2.mgr.getBit f = true ↔ s1.mgr.getBit f = true ∧ f ∉ F2) (.ite (fun hw => ?_) fun hw => .pure ?_) ?_
  · obtain ⟨s2, hrun, hm, hc, hf, hmarks⟩ := freeFrame_spec (s.mem t i).pointer s1
    unfold After
    rw [hrun]
    refine ⟨hm, hc, [_], hf, by simp, fun f => ?_, fun f => by rw [hmarks, List.mem_singleton]⟩
    rw [List.mem_singleton]
    exact ⟨fun h => ⟨⟨hp, hw⟩, h.symm⟩, fun h => h.2.symm⟩
  · exact ⟨rfl, rfl, [], by simp, .nil, fun f => ⟨fun h => absurd h (by simp), fun h => absurd h.1.2 hw⟩, by simp⟩
  rintro _ s2 ⟨hm2, hc2, F2, hf2, hnd2, hF2, hmarks2⟩
  refine .modify ⟨F1 ++ F2, ?_, ?_, fun f => ?_, fun f => ?_, fun g hg hno => ?_, fun j hj _ => ?_, fun j hj => ?_, ?_⟩
  · change s2.frees = _
    rw [hf2, h1.frees, List.append_assoc]
  · -- the frame of the entry is none of those below it
    refine List.nodup_append.mpr ⟨h1.nodup, hnd2, fun a ha b hb he => ?_⟩
    subst he
    obtain ⟨q, u, j, hs, ho, hq⟩ := (h1.mem_freed a).mp ha
    obtain ⟨ho', hq'⟩ := (hF2 a).mp hb
    have := htree.inj (hbelow hs) hroot ho ho' (hq.trans hq'.symm)
    simp at this
  · rw [List.mem_append, h1.mem_freed, hF2]
    constructor
    · rintro (⟨q, u, j, hs, ho, he⟩ | ⟨ho, he⟩)
      · exact ⟨_, u, j, hbelow hs, ho, he⟩
      · exact ⟨[], t, i, hroot, ho, he⟩
    · rintro ⟨q, u, j, hs, ho, he⟩
      rcases slot_split hs with ⟨rfl, rfl, rfl⟩ | ⟨q', k, rfl, rfl, -, hs'⟩
      · exact .inr ⟨ho, he⟩
      · exact .inl ⟨q', u, j, hs', ho, he⟩
  · rw [Machine.mgr_setEntry, hmarks2, h1.marks, List.mem_append, not_or, and_assoc]
  · unfold Machine.setEntry
    rw [Machine.mem_setFrame_of_ne hg, hm2]
    refine h1.other g fun q hlen hq => hno (q ++ [i]) (by simp) (top_concat.mpr rfl) (by simp; omega) ?_
    rw [tableAt_concat, if_pos hp, hq]
  · rw [hj]
    exact Machine.mem_setEntry_self
  · have hji : j ≠ i := fun he => hj ⟨he, he ▸ hp⟩
    rw [Machine.mem_setEntry_of_ne fun hc => hji hc.2, hm2, ht]
  · change s2.cr3 = _
    rw [hc2, h1.cr3]

theorem cleanEntries_spec {child : Nat → KernelM Unit} (hchild : 1 < d → CleanSpec (d - 1) child) (hd : 0 < d) :
    ∀ {l : List (Fin 512)} {s : Machine}, l.Nodup → Tree s.mem t (· ∈ l) d →
      After (l.forM (cleanEntry child t d)) s (fun _ s' => ∃ freed, Cleaned t (· ∈ l) d s s' freed) (fun _ _ => False)
  | [], s, _, _ => ⟨[], .refl fun j hj => absurd hj (by simp)⟩
  | i :: l, s, hnd, htree => by
    obtain ⟨hil, hnd⟩ := List.nodup_cons.mp hnd
    have htree' : Tree s.mem t (fun k => k = i ∨ k ∈ l) d := htree.mono fun k hk => List.mem_cons.mpr hk
    have hdis : ∀ k, k = i → ¬ k ∈ l := fun k hk => hk ▸ hil
    refine .bind (cleanEntry_spec hchild hd (htree'.mono fun _ => .inl)) ?_
    rintro _ s1 ⟨F1, h1⟩
    have htree1 : Tree s1.mem t (· ∈ l) d :=
      (htree'.mono fun _ => .inr).congr fun hs => h1.entry_eq htree' hdis hs
    refine (cleanEntries_spec hchild hd hnd htree1).imp ?_ fun _ _ => id
    rintro _ s2 ⟨F2, h2⟩
    have h := h1.trans h2 htree' hdis
    have hmem : (fun k => k = i ∨ k ∈ l) = (· ∈ i :: l) := funext fun k => propext List.mem_cons.symm
    rw [hmem] at h
    exact ⟨_, h⟩

end

theorem cleanPageMap_spec {addr : LinearAddress4Level} : ∀ level, (∀ k, 1 ≤ k → k ≤ level + 1 → addr.part k = 0) →
    CleanSpec (level + 1) (cleanPageMap addr (level + 1))
  | level, hpart => by
    intro t s htree
    have hall : ∀ i, i ∈ indicesFrom (addr.part (level + 1)) := fun i => by
      rw [hpart (level + 1) (by omega) (Nat.le_refl _)]
      exact mem_indicesFrom.mpr (Fin.zero_le i)
    have htrue : (fun _ => True) = (· ∈ indicesFrom (addr.part (level + 1))) :=
      funext fun i => propext ⟨fun _ => hall i, fun _ => trivial⟩
    have hchild : 1 < level + 1 → CleanSpec (level + 1 - 1) (cleanPageMap addr level) := by
      cases level with
      | zero => exact fun h => absurd h (by decide)
      | succ level => exact fun _ => cleanPageMap_spec level fun k h1 h2 => hpart k h1 (by omega)
    rw [htrue] at htree ⊢
    exact cleanEntries_spec hchild (Nat.succ_pos _) (nodup_indicesFrom _) htree

/-! ## The address space of a program -/

/-- `LinearAddress4Level{0xffff'8000'0000'0000}`, from where `CleanPageMaps` is called. -/
def upperHalf : LinearAddress4Level := .ofValue 0xffff800000000000

/-- An address from which `CleanPageMaps` walks the whole upper half. -/
structure FromUpper (addr : LinearAddress4Level) : Prop where
  pml4 : ∀ i, addr.part 4 ≤ i ↔ Upper i
  lower : ∀ k, 1 ≤ k → k ≤ 3 → addr.part k = 0

theorem upperHalf_fromUpper : FromUpper upperHalf := by
  have h4 : (upperHalf.part 4).val = 256 := by decide
  refine ⟨fun i => ?_, fun k h1 h3 => ?_⟩
  · rw [Fin.le_def, h4]
    rfl
  · obtain rfl | rfl | rfl : k = 1 ∨ k = 2 ∨ k = 3 := by omega
    all_goals decide

/-- **`CleanPageMaps`** on an address space frees exactly what it owns. -/
theorem cleanPageMaps_spec {base : Nat → Prop} {s : Machine} {addr : LinearAddress4Level} (ha : FromUpper addr)
    (h : Space base s.cr3 s) :
    After (cleanPageMaps addr) s (fun _ s' => ∃ freed, Cleaned s.cr3 Upper 4 s s' freed) (fun _ _ => False) := by
  have hupper : Upper = (· ∈ indicesFrom (addr.part 4)) := by
    refine funext fun i => propext ?_
    rw [mem_indicesFrom, ha.pml4]
  have htree := h.tree
  refine .get_bind ?_
  rw [hupper] at htree ⊢
  exact cleanEntries_spec (fun _ => cleanPageMap_spec 2 ha.lower) (by decide) (nodup_indicesFrom _) htree

section
variable {s0 s1 s : Machine} {src : Nat}

/-- **Teardown.** After a copy of an image and anything the program did, `CleanPageMaps` succeeds, frees once each frame
allocated since and no frame of the image, and leaves the upper half of the PML4 zero and the kernel half as it was. -/
theorem teardown_exact (hsrc : Image src s0) (hzero : ∀ i, Upper i → s0.mem s0.cr3 i = .zero)
    (hroot : s0.mgr.getBit s0.cr3 = true) (hrange : s0.mgr.rangeEnd ≤ kFrameCount)
    (hcopy : copyPageMaps 4 s0.cr3 src 256 s0 = .ok ⟨⟩ s1) (hrun : Relation.ReflTransGen (Op s0 src) s1 s) :
    s.frees = s0.frees ∧ (∀ f, s0.mgr.getBit f = true → s.mgr.getBit f = true) ∧
    ∃ s' freed, cleanPageMaps upperHalf s = .ok ⟨⟩ s' ∧ s'.frees = s.frees ++ freed ∧ freed.Nodup ∧
      (∀ f, f ∈ freed ↔ s.mgr.getBit f = true ∧ s0.mgr.getBit f = false) ∧
      (∀ f, Image.Frame src s0 f → f ∉ freed) ∧
      (∀ f, s'.mgr.getBit f = s0.mgr.getBit f) ∧
      (∀ i, Upper i → s'.mem s0.cr3 i = .zero) ∧ ∀ i, ¬ Upper i → s'.mem s0.cr3 i = s0.mem s0.cr3 i := by
  obtain ⟨h1, -, -⟩ := copied hsrc hzero hroot hrange hcopy
  have h := h1.ops hrun
  have hgrow : ∀ f, s0.mgr.getBit f = true → s.mgr.getBit f = true := fun f hf => (h.space.marks f).mpr (.inl hf)
  refine ⟨h.frees, hgrow, ?_⟩
  generalize haddr : upperHalf = addr
  have hclean := cleanPageMaps_spec (s := s) (haddr ▸ upperHalf_fromUpper) (by rw [h.cr3]; exact h.space)
  rw [h.cr3] at hclean
  cases hc : cleanPageMaps addr s with
  | error e s' => exact (hclean.error hc).elim
  | ok _ s' =>
    obtain ⟨freed, hf⟩ := hclean.ok hc
    have hfreed : ∀ f, f ∈ freed ↔ s.mgr.getBit f = true ∧ s0.mgr.getBit f = false := by
      intro f
      rw [hf.mem_freed, h.space.marks]
      constructor
      · rintro ⟨q, u, j, hs, ho, rfl⟩
        exact ⟨.inr ⟨q, u, j, hs, ho, rfl⟩, Bool.eq_false_iff.mpr (h.space.own hs ho)⟩
      · rintro ⟨hb | ho, h0⟩
        · rw [h0] at hb
          cases hb
        · exact ho
    refine ⟨s', freed, rfl, hf.frees, hf.nodup, hfreed, ?_, fun f => ?_, fun i hi => ?_, fun i hi => ?_⟩
    · rintro f ⟨q, hlen, htop, hq⟩ hin
      have h0 := ((hfreed f).mp hin).2
      rw [(hsrc.frame_of_table hq htop hlen).1] at h0
      cases h0
    · rw [Bool.eq_iff_iff, hf.marks, hfreed]
      cases h0 : s0.mgr.getBit f with
      | true => simp [hgrow f h0]
      | false => simp
    · cases hp : (s.mem s0.cr3 i).present with
      | true => exact hf.cleared i hi hp
      | false =>
        rw [hf.kept i fun hc => by rw [hp] at hc; cases hc.2]
        exact h.space.absent (p := []) ⟨rfl, hi, by decide⟩ hp
    · rw [hf.kept i fun hc => hi hc.1, h.lower i hi]

/-- The copy of one page and the program's stack page. -/
theorem teardown_one_page : ∃ s1 s s', copyPageMaps 4 75 70 256 pageMachine = .ok ⟨⟩ s1 ∧
    s = exec (setupPageMaps (.ofValue 0xffffffffffffe000) 1 true) s1 ∧ cleanPageMaps upperHalf s = .ok ⟨⟩ s' ∧
    ∀ f, s'.mgr.getBit f = pageMachine.mgr.getBit f := by
  obtain ⟨s1, hcopy⟩ := pageMachine_copy
  have hop : Op pageMachine 70 s1 (exec (setupPageMaps (.ofValue 0xffffffffffffe000) 1 true) s1) := by
    refine .setup (by unfold Upper; decide) fun q hlen hq => ?_
    have hpath : q = (LinearAddress4Level.ofValue 0xffffffffffffe000).path :=
      Path.number_inj (hlen.trans rfl) (by have h1 := hq.1; have h2 := hq.2; omega)
    rw [hpath]
    decide
  obtain ⟨-, -, s', -, hclean, -, -, -, -, hmarks, -⟩ := teardown_exact pageMachine_image pageMachine_zero
    (pageMachine_getBit (by decide)) pageMachine_range hcopy (.single hop)
  exact ⟨s1, _, s', hcopy, rfl, hclean, hmarks⟩

end

end KinOS.Paging
