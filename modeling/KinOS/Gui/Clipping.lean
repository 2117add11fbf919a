import KinOS.Gui.Graphics

/-!
# Clipping

| here | there |
| --- | --- |
| `inter_covers`                 | `operator&` (`libs/common/template.hpp:58-75`) |
| `mem_copy`, `mem_blits_transparent` | `Window::DrawTo` (`servers/gui/window.cpp:80-100`), `ShadowBuffer::CopyToFrameBuffer` (`shadow_buffer.cpp:36-60`) |

`&` adds positions and sizes, which may go round. If an end has gone round the test for disjoint rectangles comes out true,
so that what it returns is always inside both rectangles, and is all of what they share as long as neither end goes round.
-/

namespace KinOS.Gui

open Int32

namespace Vec

@[simp] theorem add_x (a b : Vec) : (a + b).x = a.x + b.x := rfl
@[simp] theorem add_y (a b : Vec) : (a + b).y = a.y + b.y := rfl
@[simp] theorem sub_x (a b : Vec) : (a - b).x = a.x - b.x := rfl
@[simp] theorem sub_y (a b : Vec) : (a - b).y = a.y - b.y := rfl

theorem ext' {a b : Vec} (hx : a.x.toInt = b.x.toInt) (hy : a.y.toInt = b.y.toInt) : a = b := by
  cases a
  cases b
  simp only [Int32.toInt_inj] at hx hy
  rw [hx, hy]

end Vec

namespace Rectangle

variable {a b r : Rectangle} {p : Vec}

/-- No length is negative. -/
def Sized (r : Rectangle) : Prop := 0 ≤ r.size.x.toInt ∧ 0 ≤ r.size.y.toInt

/-- The ends are `int`s. -/
def Fits (r : Rectangle) : Prop :=
  r.pos.x.toInt + r.size.x.toInt < 2147483648 ∧ r.pos.y.toInt + r.size.y.toInt < 2147483648

theorem covers_empty : ¬ Covers ⟨⟨0, 0⟩, ⟨0, 0⟩⟩ p := by
  rintro ⟨⟨h1, h2⟩, _⟩
  simp only [Int32.toInt_zero] at h1 h2
  omega

/-- The four numbers of an overlap. -/
theorem inter_pos (ha : a.Sized) (hb : b.Sized) (h : ¬ ((a.pos + a.size).x < b.pos.x ∨ (a.pos + a.size).y < b.pos.y ∨
    (b.pos + b.size).x < a.pos.x ∨ (b.pos + b.size).y < a.pos.y)) :
    ((a.inter b).pos.x.toInt = max a.pos.x.toInt b.pos.x.toInt ∧
      (a.inter b).pos.x.toInt + (a.inter b).size.x.toInt =
        min (a.pos.x.toInt + a.size.x.toInt) (b.pos.x.toInt + b.size.x.toInt) ∧ 0 ≤ (a.inter b).size.x.toInt) ∧
    ((a.inter b).pos.y.toInt = max a.pos.y.toInt b.pos.y.toInt ∧
      (a.inter b).pos.y.toInt + (a.inter b).size.y.toInt =
        min (a.pos.y.toInt + a.size.y.toInt) (b.pos.y.toInt + b.size.y.toInt) ∧ 0 ≤ (a.inter b).size.y.toInt) := by
  simp only [inter, if_neg h]
  simp only [not_or, Vec.add_x, Vec.add_y] at h
  obtain ⟨hsx, hox⟩ := overlap_exact ha.1 hb.1 h.1 h.2.2.1
  obtain ⟨hsy, hoy⟩ := overlap_exact ha.2 hb.2 h.2.1 h.2.2.2
  simp only [Vec.elementMax, Vec.elementMin, Vec.add_x, Vec.add_y, Vec.sub_x, Vec.sub_y, toInt_max] at hsx hsy ⊢
  rw [hsx, hsy]
  refine ⟨⟨trivial, ?_, ?_⟩, trivial, ?_, ?_⟩ <;> omega

/-- Two rectangles that touch, whose ends are `int`s. -/
theorem inter_pos_of_le (ha : a.Sized) (hb : b.Sized) (hfa : a.Fits) (hfb : b.Fits)
    (hx : b.pos.x.toInt ≤ a.pos.x.toInt + a.size.x.toInt ∧ a.pos.x.toInt ≤ b.pos.x.toInt + b.size.x.toInt)
    (hy : b.pos.y.toInt ≤ a.pos.y.toInt + a.size.y.toInt ∧ a.pos.y.toInt ≤ b.pos.y.toInt + b.size.y.toInt) :
    ((a.inter b).pos.x.toInt = max a.pos.x.toInt b.pos.x.toInt ∧
      (a.inter b).pos.x.toInt + (a.inter b).size.x.toInt =
        min (a.pos.x.toInt + a.size.x.toInt) (b.pos.x.toInt + b.size.x.toInt) ∧ 0 ≤ (a.inter b).size.x.toInt) ∧
    ((a.inter b).pos.y.toInt = max a.pos.y.toInt b.pos.y.toInt ∧
      (a.inter b).pos.y.toInt + (a.inter b).size.y.toInt =
        min (a.pos.y.toInt + a.size.y.toInt) (b.pos.y.toInt + b.size.y.toInt) ∧ 0 ≤ (a.inter b).size.y.toInt) := by
  have hax := toInt_add_cases a.pos.x a.size.x
  have hay := toInt_add_cases a.pos.y a.size.y
  have hbx := toInt_add_cases b.pos.x b.size.x
  have hby := toInt_add_cases b.pos.y b.size.y
  have hlax := a.pos.x.le_toInt
  have hlay := a.pos.y.le_toInt
  have hlbx := b.pos.x.le_toInt
  have hlby := b.pos.y.le_toInt
  obtain ⟨ha1, ha2⟩ := ha
  obtain ⟨hb1, hb2⟩ := hb
  obtain ⟨hf1, hf2⟩ := hfa
  obtain ⟨hf3, hf4⟩ := hfb
  refine inter_pos ⟨ha1, ha2⟩ ⟨hb1, hb2⟩ ?_
  simp only [Int32.lt_iff_toInt_lt, Vec.add_x, Vec.add_y]
  rintro (h | h | h | h) <;> omega

theorem inter_sized (ha : a.Sized) (hb : b.Sized) : (a.inter b).Sized := by
  by_cases h : (a.pos + a.size).x < b.pos.x ∨ (a.pos + a.size).y < b.pos.y ∨
    (b.pos + b.size).x < a.pos.x ∨ (b.pos + b.size).y < a.pos.y
  · simp only [inter, if_pos h]
    exact ⟨by decide, by decide⟩
  · obtain ⟨⟨_, _, hx⟩, _, _, hy⟩ := inter_pos ha hb h
    exact ⟨hx, hy⟩

theorem inter_fits (ha : a.Sized) (hb : b.Sized) : (a.inter b).Fits := by
  by_cases h : (a.pos + a.size).x < b.pos.x ∨ (a.pos + a.size).y < b.pos.y ∨
    (b.pos + b.size).x < a.pos.x ∨ (b.pos + b.size).y < a.pos.y
  · simp only [inter, if_pos h]
    exact ⟨by decide, by decide⟩
  · obtain ⟨⟨_, hx, _⟩, _, hy, _⟩ := inter_pos ha hb h
    simp only [not_or, Vec.add_x, Vec.add_y] at h
    obtain ⟨hex, _⟩ := ends_exact ha.1 hb.1 h.1 h.2.2.1
    obtain ⟨hey, _⟩ := ends_exact ha.2 hb.2 h.2.1 h.2.2.2
    have hlx := (a.pos.x + a.size.x).toInt_lt
    have hly := (a.pos.y + a.size.y).toInt_lt
    unfold Fits
    omega

theorem covers_of_inter (ha : a.Sized) (hb : b.Sized) (h : (a.inter b).Covers p) : a.Covers p ∧ b.Covers p := by
  by_cases hd : (a.pos + a.size).x < b.pos.x ∨ (a.pos + a.size).y < b.pos.y ∨
    (b.pos + b.size).x < a.pos.x ∨ (b.pos + b.size).y < a.pos.y
  · simp only [inter, if_pos hd] at h
    exact absurd h covers_empty
  · obtain ⟨⟨hx, hx', _⟩, hy, hy', _⟩ := inter_pos ha hb hd
    obtain ⟨⟨h1, h2⟩, h3, h4⟩ := h
    refine ⟨⟨⟨?_, ?_⟩, ?_, ?_⟩, ⟨?_, ?_⟩, ?_, ?_⟩ <;> omega

theorem inter_covers (ha : a.Sized) (hb : b.Sized) (hfa : a.Fits) (hfb : b.Fits) (hpa : a.Covers p) (hpb : b.Covers p) :
    (a.inter b).Covers p := by
  obtain ⟨⟨ax, ax'⟩, ay, ay'⟩ := hpa
  obtain ⟨⟨bx, bx'⟩, by1, by2⟩ := hpb
  obtain ⟨⟨hx, hx', _⟩, hy, hy', _⟩ := inter_pos_of_le ha hb hfa hfb (by omega) (by omega)
  refine ⟨⟨?_, ?_⟩, ?_, ?_⟩ <;> omega

/-- The points of a rectangle, by comparisons of `int`s: `pos <= p && p < pos + size`. -/
def Within (r : Rectangle) (p : Vec) : Prop :=
  (r.pos.x ≤ p.x ∧ p.x < (r.pos + r.size).x) ∧ (r.pos.y ≤ p.y ∧ p.y < (r.pos + r.size).y)

/-- An end that has gone round is below every point. -/
theorem within_iff (hr : r.Sized) : r.Within p ↔ r.Covers p ∧ r.Fits := by
  obtain ⟨hsx, hsy⟩ := hr
  have hx := toInt_add_cases r.pos.x r.size.x
  have hy := toInt_add_cases r.pos.y r.size.y
  have hgx := r.size.x.toInt_lt
  have hgy := r.size.y.toInt_lt
  have hpx := r.pos.x.toInt_lt
  have hpy := r.pos.y.toInt_lt
  have hlx := r.pos.x.le_toInt
  have hly := r.pos.y.le_toInt
  simp only [Within, Covers, Fits, Vec.add_x, Vec.add_y, Int32.le_iff_toInt_le, Int32.lt_iff_toInt_lt]
  constructor
  · rintro ⟨⟨h1, h2⟩, h3, h4⟩
    exact ⟨⟨⟨h1, by omega⟩, h3, by omega⟩, by omega, by omega⟩
  · rintro ⟨⟨⟨h1, h2⟩, h3, h4⟩, h5, h6⟩
    exact ⟨⟨h1, by omega⟩, h3, by omega⟩

/-- `&` has the points that both sides have, whether their ends have gone round or not. -/
theorem inter_within (ha : a.Sized) (hb : b.Sized) : (a.inter b).Within p ↔ a.Within p ∧ b.Within p := by
  rw [within_iff (inter_sized ha hb), within_iff ha, within_iff hb]
  constructor
  · rintro ⟨hp, -⟩
    obtain ⟨hpa, hpb⟩ := covers_of_inter ha hb hp
    by_cases hd : (a.pos + a.size).x < b.pos.x ∨ (a.pos + a.size).y < b.pos.y ∨
      (b.pos + b.size).x < a.pos.x ∨ (b.pos + b.size).y < a.pos.y
    · simp only [inter, if_pos hd] at hp
      exact absurd hp covers_empty
    · simp only [not_or, Vec.add_x, Vec.add_y] at hd
      obtain ⟨hax, hbx⟩ := ends_exact ha.1 hb.1 hd.1 hd.2.2.1
      obtain ⟨hay, hby⟩ := ends_exact ha.2 hb.2 hd.2.1 hd.2.2.2
      have h1 := (a.pos.x + a.size.x).toInt_lt
      have h2 := (a.pos.y + a.size.y).toInt_lt
      have h3 := (b.pos.x + b.size.x).toInt_lt
      have h4 := (b.pos.y + b.size.y).toInt_lt
      exact ⟨⟨hpa, by omega, by omega⟩, hpb, by omega, by omega⟩
  · rintro ⟨⟨hpa, hfa⟩, hpb, hfb⟩
    exact ⟨inter_covers ha hb hfa hfb hpa hpb, inter_fits ha hb⟩

/-- Two nested loops over a rectangle visit its points. -/
theorem mem_loops (hf : r.Fits) : (∃ dy ∈ upTo 0 r.size.y, ∃ dx ∈ upTo 0 r.size.x, r.pos + ⟨dx, dy⟩ = p) ↔ r.Covers p := by
  have hlx := r.pos.x.le_toInt
  have hly := r.pos.y.le_toInt
  obtain ⟨hfx, hfy⟩ := hf
  simp only [mem_upTo, Int32.toInt_zero]
  constructor
  · rintro ⟨dy, hdy, dx, hdx, rfl⟩
    have hx := toInt_add_cases r.pos.x dx
    have hy := toInt_add_cases r.pos.y dy
    simp only [Covers, Vec.add_x, Vec.add_y]
    omega
  · rintro ⟨⟨h1, h2⟩, h3, h4⟩
    have hx := toInt_sub_cases p.x r.pos.x
    have hy := toInt_sub_cases p.y r.pos.y
    have hsx := r.size.x.toInt_lt
    have hsy := r.size.y.toInt_lt
    refine ⟨p.y - r.pos.y, by omega, p.x - r.pos.x, by omega, ?_⟩
    have hcancel : ∀ u v : Int32, u + (v - u) = v := fun u v => by grind
    cases p
    exact congrArg₂ Vec.mk (hcancel ..) (hcancel ..)

end Rectangle

open Rectangle

/-- A size the machine can hold: its shadow buffer, `4 * width * height` bytes in an `unsigned int`, has all the pixels. -/
structure Whole (size : Vec) : Prop where
  x : 0 ≤ size.x.toInt
  y : 0 ≤ size.y.toInt
  bytes : 4 * size.x.toInt * size.y.toInt < 4294967296

/-- A screen whose pixels have addresses in the frame buffer, `4 * (width * y + x)` in an `unsigned int`. -/
structure IsScreen (screen : Vec) : Prop where
  x : 0 ≤ screen.x.toInt ∧ screen.x.toInt < 1073741824
  y : 0 ≤ screen.y.toInt ∧ screen.y.toInt < 1073741824

variable {screen pos size p q : Vec} {area : Rectangle}

theorem Whole.small (h : Whole size) (hx : 0 < size.x.toInt) (hy : 0 < size.y.toInt) :
    size.x.toInt < 1073741824 ∧ size.y.toInt < 1073741824 := by
  have hb := h.bytes
  have h1 := Int.mul_le_mul_of_nonneg_left (Int.add_one_le_of_lt hy) h.x
  have h2 := Int.mul_le_mul_of_nonneg_left (Int.add_one_le_of_lt hx) h.y
  rw [Int.mul_comm size.y.toInt size.x.toInt] at h2
  rw [Int.mul_assoc] at hb
  omega

theorem covers_screen : Covers ⟨⟨0, 0⟩, screen⟩ p ↔ Inside screen p := by
  simp only [Covers, Inside, Int32.le_iff_toInt_le, Int32.lt_iff_toInt_lt, Int32.toInt_zero, Int.zero_add]

/-- A rectangle that has a point of the screen has ends that have not gone round. -/
theorem fits_of_covers (hs : IsScreen screen) (hw : Whole area.size) (hp : Inside screen p) (h : area.Covers p) :
    area.Fits := by
  obtain ⟨⟨hx1, hx2⟩, hy1, hy2⟩ := h
  obtain ⟨⟨_, hpx⟩, _, hpy⟩ := hp
  rw [Int32.lt_iff_toInt_lt] at hpx hpy
  obtain ⟨hsx, hsy⟩ := hw.small (by omega) (by omega)
  have h1 := hs.x.2
  have h2 := hs.y.2
  exact ⟨by omega, by omega⟩

theorem sub_sub_cancel (u v : Vec) : u - (u - v) = v := by
  have hcancel : ∀ a b : Int32, a - (a - b) = b := fun a b => by grind
  cases u
  cases v
  exact congrArg₂ Vec.mk (hcancel ..) (hcancel ..)

/-- What `CopyToFrameBuffer` copies, in the arguments `DrawTo` gives it. -/
theorem mem_copy (hframe : Sized ⟨⟨0, 0⟩, screen⟩) (hsize : Sized ⟨pos, size⟩) (ha : area.Sized) :
    (p, q) ∈ blits screen false pos size area ↔
      Covers ((inter ⟨⟨0, 0⟩, screen⟩ ⟨pos, size⟩).inter (area.inter ⟨pos, size⟩)) p ∧ q = p - pos := by
  have hfit := inter_fits (inter_sized hframe hsize) (inter_sized ha hsize)
  have hmove : ∀ u d : Vec, u - pos + d = u + d - pos := by
    intro u d
    have hcomm : ∀ a b c : Int32, a - b + c = a + c - b := fun a b c => by grind
    exact congrArg₂ Vec.mk (hcomm ..) (hcomm ..)
  simp only [blits, copyToFrameBuffer, sub_sub_cancel, Bool.false_eq_true, if_false, List.mem_flatMap, List.mem_map,
    Prod.mk.injEq, hmove]
  rw [← mem_loops hfit]
  constructor
  · rintro ⟨dy, hdy, dx, hdx, rfl, rfl⟩
    exact ⟨⟨dy, hdy, dx, hdx, rfl⟩, rfl⟩
  · rintro ⟨⟨dy, hdy, dx, hdx, rfl⟩, rfl⟩
    exact ⟨dy, hdy, dx, hdx, rfl, rfl⟩

section Row

/-! One coordinate of the loops that look at every pixel: screen length `s`, position `p` and length `w` of the window. -/

variable {s p w x c : Int32}

theorem row_pos (h1 : (max 0 (0 - p)).toInt ≤ x.toInt) (h2 : x.toInt < (min w (s - p)).toInt) : 0 < w.toInt := by
  rw [toInt_max, Int32.toInt_zero] at h1
  rw [toInt_min] at h2
  omega

/-- What the loop visits is on the screen and in the window. -/
theorem row_visited (hs : 0 ≤ s.toInt ∧ s.toInt < 1073741824) (hw : w.toInt < 1073741824)
    (h1 : (max 0 (0 - p)).toInt ≤ x.toInt) (h2 : x.toInt < (min w (s - p)).toInt) :
    (0 ≤ (p + x).toInt ∧ (p + x).toInt < s.toInt) ∧ p.toInt ≤ (p + x).toInt ∧ (p + x).toInt < p.toInt + w.toInt := by
  have hl := p.le_toInt
  have hg := p.toInt_lt
  have hn := toInt_sub_cases 0 p
  have hr := toInt_sub_cases s p
  have ha := toInt_add_cases p x
  rw [toInt_max, Int32.toInt_zero] at h1
  rw [toInt_min] at h2
  rw [Int32.toInt_zero] at hn
  omega

/-- What is on the screen and in the window is visited. -/
theorem row_visits (hs : 0 ≤ s.toInt ∧ s.toInt < 1073741824) (hw : w.toInt < 1073741824)
    (hc : 0 ≤ c.toInt ∧ c.toInt < s.toInt) (hp : p.toInt ≤ c.toInt ∧ c.toInt < p.toInt + w.toInt) :
    (max 0 (0 - p)).toInt ≤ (c - p).toInt ∧ (c - p).toInt < (min w (s - p)).toInt := by
  have hl := p.le_toInt
  have hg := p.toInt_lt
  have hn := toInt_sub_cases 0 p
  have hr := toInt_sub_cases s p
  have ha := toInt_sub_cases c p
  rw [toInt_max, toInt_min, Int32.toInt_zero]
  rw [Int32.toInt_zero] at hn
  omega

end Row

/-- With a transparent colour, all of the window that is on the screen is drawn. -/
theorem mem_blits_transparent (hs : IsScreen screen) (hw : Whole size) :
    (p, q) ∈ blits screen true pos size area ↔ (Inside screen p ∧ Covers ⟨pos, size⟩ p) ∧ q = p - pos := by
  simp only [blits, if_true, List.mem_flatMap, List.mem_map, Prod.mk.injEq, mem_upTo]
  constructor
  · rintro ⟨y, hy, x, hx, rfl, rfl⟩
    obtain ⟨hwx, hwy⟩ := hw.small (row_pos hx.1 hx.2) (row_pos hy.1 hy.2)
    obtain ⟨hsx, hcx⟩ := row_visited hs.x hwx hx.1 hx.2
    obtain ⟨hsy, hcy⟩ := row_visited hs.y hwy hy.1 hy.2
    simp only [Inside, Covers, Int32.le_iff_toInt_le, Int32.lt_iff_toInt_lt, Int32.toInt_zero, Vec.add_x, Vec.add_y]
    have hcancel : ∀ a b : Int32, b = a + b - a := fun a b => by grind
    exact ⟨⟨⟨hsx, hsy⟩, hcx, hcy⟩, congrArg₂ Vec.mk (hcancel ..) (hcancel ..)⟩
  · rintro ⟨⟨hp, hcx, hcy⟩, rfl⟩
    simp only [Inside, Int32.le_iff_toInt_le, Int32.lt_iff_toInt_lt, Int32.toInt_zero] at hp hcx hcy
    obtain ⟨hwx, hwy⟩ := hw.small (by omega) (by omega)
    refine ⟨p.y - pos.y, row_visits hs.y hwy hp.2 hcy, p.x - pos.x, row_visits hs.x hwx hp.1 hcx, ?_, rfl⟩
    have hcancel : ∀ a b : Int32, a + (b - a) = b := fun a b => by grind
    cases p
    exact congrArg₂ Vec.mk (hcancel ..) (hcancel ..)

end KinOS.Gui
