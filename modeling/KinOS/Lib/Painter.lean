import Mathlib

/-!
# Sheets painted over one another

A sheet shows a colour at some points and lets the others through. A stack of sheets, from the bottom to the top, makes a
picture: at each point, what the highest sheet shows there. A canvas has a colour at every point.

A point of a canvas is `Right` if it has the colour of the picture. Painting the sheets again from some sheet upwards keeps
a point right (`Right.repaint`), and makes it right if one of them shows something there (`right_of_isSome`).
-/

namespace Painter

variable {P C : Type}

/-- The picture a stack of sheets makes. -/
def composite : List (P → Option C) → P → Option C
  | [], _ => none
  | s :: ss, p => (composite ss p).or (s p)

@[simp] theorem composite_nil (p : P) : composite ([] : List (P → Option C)) p = none := rfl

@[simp] theorem composite_cons (s : P → Option C) (ss : List (P → Option C)) (p : P) :
    composite (s :: ss) p = (composite ss p).or (s p) := rfl

theorem composite_append (p : P) : ∀ ss ts : List (P → Option C), composite (ss ++ ts) p = (composite ts p).or
    (composite ss p)
  | [], ts => by simp
  | s :: ss, ts => by simp [composite_append p ss ts, Option.or_assoc]

theorem composite_none {p : P} : ∀ {ss : List (P → Option C)}, (∀ s ∈ ss, s p = none) → composite ss p = none
  | [], _ => rfl
  | s :: ss, h => by
    rw [composite_cons, composite_none fun t ht => h t (List.mem_cons_of_mem _ ht), h s (List.mem_cons_self ..)]
    rfl

/-- Two stacks make the same picture at a point if their sheets agree there. -/
theorem composite_congr {α : Type} {s t : α → P → Option C} {p : P} : ∀ {as : List α}, (∀ a ∈ as, s a p = t a p) →
    composite (as.map s) p = composite (as.map t) p
  | [], _ => rfl
  | a :: as, h => by
    simp only [List.map_cons, composite_cons, h a (List.mem_cons_self ..),
      composite_congr fun b hb => h b (List.mem_cons_of_mem _ hb)]

/-- The highest sheet that covers a point is the first one found from the top. -/
theorem composite_find {α : Type} (covers : α → P → Bool) (colour : α → P → C) (p : P) (as : List α) :
    composite (as.map fun a p => if covers a p then some (colour a p) else none) p =
      (as.reverse.find? fun a => covers a p).map fun a => colour a p := by
  induction as with
  | nil => rfl
  | cons a as ih =>
    simp only [List.map_cons, composite_cons, ih, List.reverse_cons, List.find?_append, List.find?_cons, List.find?_nil]
    cases as.reverse.find? fun a => covers a p with
    | some b => rfl
    | none => cases covers a p <;> rfl

/-- Drawing things one after another, each of which paints its sheet at a point. -/
theorem foldl_draw {α : Type} {draw : (P → C) → α → P → C} {sheet : α → P → Option C} {p : P} :
    ∀ {as : List α}, (∀ a ∈ as, ∀ f, draw f a p = (sheet a p).getD (f p)) → ∀ f : P → C,
      as.foldl draw f p = (composite (as.map sheet) p).getD (f p)
  | [], _, _ => rfl
  | a :: as, h, f => by
    have ih := foldl_draw (fun b hb => h b (List.mem_cons_of_mem _ hb)) (draw f a)
    rw [List.foldl_cons, ih, h a (List.mem_cons_self ..), List.map_cons, composite_cons]
    cases composite (as.map sheet) p <;> rfl

/-- A sheet that shows nothing at a point may be missing. -/
theorem composite_erase {α : Type} [DecidableEq α] {s : α → P → Option C} {p : P} {a : α} (h : s a p = none) :
    ∀ as : List α, composite ((as.erase a).map s) p = composite (as.map s) p
  | [] => rfl
  | b :: as => by
    by_cases hb : b = a
    · rw [hb, List.erase_cons_head, List.map_cons, composite_cons, h, Option.or_none]
    · rw [List.erase_cons_tail (by simpa using hb), List.map_cons, List.map_cons, composite_cons, composite_cons,
        composite_erase h as]

/-- What a picture shows is on one of its sheets. -/
theorem exists_of_composite {p : P} {c : C} : ∀ {ss : List (P → Option C)}, composite ss p = some c → ∃ s ∈ ss, s p = some c
  | s :: ss, h => by
    rw [composite_cons] at h
    cases hss : composite ss p with
    | some d =>
      rw [hss, Option.some_or] at h
      obtain ⟨t, ht, htp⟩ := exists_of_composite (hss.trans h)
      exact ⟨t, List.mem_cons_of_mem _ ht, htp⟩
    | none =>
      rw [hss, Option.none_or] at h
      exact ⟨s, List.mem_cons_self .., h⟩

/-! ## Painting again -/

/-- The colour of a point is that of the picture, if the picture has one there. -/
def Right (ss : List (P → Option C)) (p : P) (v : C) : Prop := ∀ c, composite ss p = some c → v = c

section

variable {pre post : List (P → Option C)} {p : P} {v : C}

/-- The sheets from some sheet upwards are painted again on a point that is right. -/
theorem Right.repaint (h : Right (pre ++ post) p v) : Right (pre ++ post) p ((composite post p).getD v) := by
  intro c hc
  cases hpost : composite post p with
  | some d =>
    rw [composite_append, hpost, Option.some_or] at hc
    exact Option.some.inj hc
  | none => exact h c hc

/-- They show something there, and no matter what the point was. -/
theorem right_of_isSome (h : (composite post p).isSome) (v : C) : Right (pre ++ post) p ((composite post p).getD v) := by
  obtain ⟨d, hd⟩ := Option.isSome_iff_exists.1 h
  intro c hc
  rw [composite_append, hd, Option.some_or] at hc
  rw [hd]
  exact Option.some.inj hc

/-- All sheets are painted. -/
theorem right_of_all (ss : List (P → Option C)) (v : C) : Right ss p ((composite ss p).getD v) := by
  intro c hc
  rw [hc]
  rfl

end

/-! ## Points one by one -/

/-- A list of points, each with the colour it gets, if any. -/
def stamp [DecidableEq P] : List (P × Option C) → (P → C) → P → C
  | [], f => f
  | (q, o) :: ws, f => stamp ws fun p => if p = q then o.getD (f p) else f p

theorem stamp_congr [DecidableEq P] {p : P} : ∀ (ws : List (P × Option C)) {f g : P → C}, f p = g p →
    stamp ws f p = stamp ws g p
  | [], _, _, h => h
  | (q, o) :: ws, f, g, h => stamp_congr ws (by simp only [h])

theorem stamp_of_not_mem [DecidableEq P] {p : P} : ∀ {ws : List (P × Option C)}, (∀ o, (p, o) ∉ ws) → ∀ f : P → C,
    stamp ws f p = f p
  | [], _, _ => rfl
  | (q, o) :: ws, h, f => by
    have hne : p ≠ q := fun he => h o (he ▸ List.mem_cons_self ..)
    rw [stamp, stamp_of_not_mem fun o' ho => h o' (List.mem_cons_of_mem _ ho), if_neg hne]

theorem stamp_of_mem [DecidableEq P] {p : P} {o : Option C} : ∀ {ws : List (P × Option C)}, (p, o) ∈ ws →
    (∀ o', (p, o') ∈ ws → o' = o) → ∀ f : P → C, stamp ws f p = o.getD (f p)
  | (q, a) :: ws, hm, hu, f => by
    have hhead : ∀ g : P → C, (if p = q then a.getD (g p) else g p) = if p = q then o.getD (g p) else g p := fun g => by
      split
      · next he => rw [hu a (he ▸ List.mem_cons_self ..)]
      · rfl
    rw [stamp]
    by_cases hin : (p, o) ∈ ws
    · rw [stamp_of_mem hin fun o' ho => hu o' (List.mem_cons_of_mem _ ho), hhead]
      split
      · cases o <;> rfl
      · rfl
    · obtain ⟨rfl, rfl⟩ := Prod.mk.inj ((List.mem_cons.1 hm).resolve_right hin)
      rw [stamp_of_not_mem, if_pos rfl]
      intro o' ho
      exact hin (hu o' (List.mem_cons_of_mem _ ho) ▸ ho)

end Painter
