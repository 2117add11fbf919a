import KinOS.Gui.Window

/-!
# Text in a window

| here | there |
| --- | --- |
| `Window.draw`    | a drawing function on `Window::Writer()` (`servers/gui/window.cpp:112-119`) |
| `fill`           | `FillRectangle` (`graphics.cpp:48-55`) |
| `ink`, `glyph`   | `GetFont`, `WriteAscii` (`font.cpp`) |
| `scroll`         | `Window::Move` (`window.cpp:102-104`) |

A picture is what the shadow buffer of a window shows, by column and row of pixels. A grid is what text is to be seen in
it: cells of 8 x 16 pixels, each empty or with a character of some colour. A glyph sets only the pixels it has ink in, so
that a character can be read off a picture only if its cell was empty when it was written.
-/

namespace KinOS.Gui

open Rectangle

/-- `none` is a pixel outside the window. -/
def Window.draw (w : Window) (ps : Pixels) : Option Window := ps.foldlM (fun w e => w.write e.1 e.2) w

/-- The colour at a column and a row. -/
abbrev Picture := Nat → Nat → PixelColor

namespace Picture

def fill (x y w h : Nat) (c : PixelColor) (p : Picture) : Picture := fun px py =>
  if (x ≤ px ∧ px < x + w) ∧ y ≤ py ∧ py < y + h then c else p px py

/-- The pixels of a glyph that are set. -/
def ink (font : List UInt8) (c : UInt8) (dx dy : Nat) : Bool :=
  match getFont font c with
  | none => false
  | some rows => ((rows.getD dy 0).toNat <<< dx) &&& 0x80 ≠ 0

def glyph (font : List UInt8) (x y : Nat) (ch : UInt8) (c : PixelColor) (p : Picture) : Picture := fun px py =>
  if ((x ≤ px ∧ px < x + 8) ∧ y ≤ py ∧ py < y + 16) ∧ ink font ch (px - x) (py - y) then c else p px py

/-- A rectangle of the size `w` x `h` is copied from `sx`, `sy` to `dx`, `dy`. -/
def scroll (dx dy sx sy w h : Nat) (p : Picture) : Picture := fun px py =>
  if (dx ≤ px ∧ px < dx + w) ∧ dy ≤ py ∧ py < dy + h then p (px - dx + sx) (py - dy + sy) else p px py

end Picture

namespace Window

/-- All pixels of the window, which has the size `W` x `H`, are those of the picture. -/
structure Shows (w : Window) (W H : Nat) (p : Picture) : Prop where
  width : w.width.toInt = W
  height : w.height.toInt = H
  buffered : w.Buffered
  pixel : ∀ x y : Nat, x < W → y < H → w.shadowBuffer.colorAt x y = some (p x y)

variable {w w' : Window} {W H : Nat} {p p' : Picture} {q pos size dst : Vec} {src : Rectangle} {c : PixelColor}
  {x y n m : Nat}

/-- A window whose pixels have their bytes shows something. -/
theorem exists_shows (hx : w.width.toInt = W) (hy : w.height.toInt = H) (hb : 4 * W * H < 4294967296) :
    ∃ p, w.Shows W H p := by
  have hbuf : w.Buffered := by
    rw [Buffered, hx, hy]
    exact_mod_cast hb
  refine ⟨fun x y => (w.shadowBuffer.colorAt x y).getD ⟨0, 0, 0⟩, hx, hy, hbuf, fun x y hxx hyy => ?_⟩
  have hwx := w.width.toInt_lt
  have hwy := w.height.toInt_lt
  have h1 := Int32.toInt_ofNat_of_lt (by omega : x < 2 ^ 31)
  have h2 := Int32.toInt_ofNat_of_lt (by omega : y < 2 ^ 31)
  have hend := hbuf.end_le (p := ⟨Int32.ofNat x, Int32.ofNat y⟩) (inside_toInt.2 (by simp only [h1, h2]; omega))
  simp only [h1, h2] at hend
  rw [ShadowBuffer.colorAt, if_pos hend]
  rfl

namespace Shows

theorem congr (h : w.Shows W H p) (hp : ∀ x y, x < W → y < H → p' x y = p x y) : w.Shows W H p' :=
  ⟨h.width, h.height, h.buffered, fun x y hx hy => by rw [hp x y hx hy, h.pixel x y hx hy]⟩

theorem inside (h : w.Shows W H p) : Inside w.size q ↔ (0 ≤ q.x.toInt ∧ q.x.toInt < W) ∧ 0 ≤ q.y.toInt ∧ q.y.toInt < H := by
  rw [inside_toInt, h.width, h.height]

/-- The position of a pixel. -/
theorem vec (h : w.Shows W H p) (hx : x < W) (hy : y < H) :
    (⟨Int32.ofNat x, Int32.ofNat y⟩ : Vec).x.toInt = x ∧ (⟨Int32.ofNat x, Int32.ofNat y⟩ : Vec).y.toInt = y ∧
      Inside w.size ⟨Int32.ofNat x, Int32.ofNat y⟩ := by
  have hw := h.width
  have hh := h.height
  have hwx := w.width.toInt_lt
  have hwy := w.height.toInt_lt
  have h1 := Int32.toInt_ofNat_of_lt (by omega : x < 2 ^ 31)
  have h2 := Int32.toInt_ofNat_of_lt (by omega : y < 2 ^ 31)
  exact ⟨h1, h2, h.inside.2 (by simp only [h1, h2]; omega)⟩

theorem write (h : w.Shows W H p) (hq : Inside w.size q) (c : PixelColor) : ∃ w', w.write q c = some w' ∧
    w'.Shows W H fun x y => if q.x.toInt = x ∧ q.y.toInt = y then c else p x y := by
  obtain ⟨w', hw', hsize, hb, hall⟩ := h.buffered.write hq c
  obtain ⟨hw, hh⟩ := Vec.mk.inj hsize
  refine ⟨w', hw', ⟨hw ▸ h.width, hh ▸ h.height, hb, fun x y hx hy => ?_⟩⟩
  obtain ⟨h1, h2, hin⟩ := h.vec hx hy
  obtain ⟨-, hcol⟩ := hall _ hin
  rw [shadowColor, shadowColor, h1, h2, h.pixel x y hx hy] at hcol
  rw [hcol]
  have hiff : (⟨Int32.ofNat x, Int32.ofNat y⟩ : Vec) = q ↔ q.x.toInt = x ∧ q.y.toInt = y := by
    constructor
    · rintro rfl
      exact ⟨h1, h2⟩
    · rintro ⟨hqx, hqy⟩
      exact Vec.ext' (h1.trans hqx.symm) (h2.trans hqy.symm)
  simp only [hiff]
  split <;> rfl

/-- Pixels of one colour. -/
theorem draw {ps : Pixels} (h : w.Shows W H p) (hin : ∀ e ∈ ps, Inside w.size e.1) (hc : ∀ e ∈ ps, e.2 = c) :
    ∃ w', w.draw ps = some w' ∧
      w'.Shows W H fun x y => if ∃ e ∈ ps, e.1.x.toInt = x ∧ e.1.y.toInt = y then c else p x y := by
  induction ps generalizing w p with
  | nil => exact ⟨w, rfl, h.congr fun x y _ _ => by simp⟩
  | cons e ps ih =>
    obtain ⟨w1, h1, hs1⟩ := h.write (hin e (List.mem_cons_self ..)) e.2
    have hin1 : ∀ e' ∈ ps, Inside w1.size e'.1 := by
      intro e' he'
      rw [hs1.inside, ← h.inside]
      exact hin e' (List.mem_cons_of_mem _ he')
    obtain ⟨w2, h2, hs2⟩ := ih hs1 hin1 fun e' he' => hc e' (List.mem_cons_of_mem _ he')
    refine ⟨w2, ?_, hs2.congr fun x y _ _ => ?_⟩
    · rw [Window.draw, List.foldlM_cons, h1]
      exact h2
    · simp only [List.mem_cons, exists_eq_or_imp, hc e (List.mem_cons_self ..)]
      by_cases h0 : e.1.x.toInt = x ∧ e.1.y.toInt = y
      · simp [h0]
      · simp only [h0, false_or, if_false]

theorem fill (h : w.Shows W H p) (hx : pos.x.toInt = x) (hy : pos.y.toInt = y) (hn : size.x.toInt = n)
    (hm : size.y.toInt = m) (hW : x + n ≤ W) (hH : y + m ≤ H) (c : PixelColor) :
    ∃ w', w.draw (fillRectangle pos size c) = some w' ∧ w'.Shows W H (p.fill x y n m c) := by
  have hwx := w.width.toInt_lt
  have hwy := w.height.toInt_lt
  have hw := h.width
  have hh := h.height
  have hf : Fits ⟨pos, size⟩ := by
    simp only [Fits]
    omega
  have hmem : ∀ q, (∃ e ∈ fillRectangle pos size c, e.1 = q) ↔ Covers ⟨pos, size⟩ q := by
    intro q
    rw [← mem_loops hf]
    simp only [fillRectangle, List.mem_flatMap, List.mem_map]
    constructor
    · rintro ⟨e, ⟨dy, hdy, dx, hdx, rfl⟩, rfl⟩
      exact ⟨dy, hdy, dx, hdx, rfl⟩
    · rintro ⟨dy, hdy, dx, hdx, rfl⟩
      exact ⟨_, ⟨dy, hdy, dx, hdx, rfl⟩, rfl⟩
  have hc : ∀ e ∈ fillRectangle pos size c, e.2 = c := by
    intro e he
    simp only [fillRectangle, List.mem_flatMap, List.mem_map] at he
    obtain ⟨dy, _, dx, _, rfl⟩ := he
    rfl
  have hin : ∀ e ∈ fillRectangle pos size c, Inside w.size e.1 := by
    intro e he
    obtain ⟨⟨h1, h2⟩, h3, h4⟩ := (hmem e.1).1 ⟨e, he, rfl⟩
    simp only at h1 h2 h3 h4
    exact h.inside.2 (by omega)
  obtain ⟨w', hw', hs⟩ := h.draw hin hc
  refine ⟨w', hw', hs.congr fun px py hpx hpy => ?_⟩
  obtain ⟨h1, h2, _⟩ := h.vec hpx hpy
  have hiff : (∃ e ∈ fillRectangle pos size c, e.1.x.toInt = px ∧ e.1.y.toInt = py) ↔
      (x ≤ px ∧ px < x + n) ∧ y ≤ py ∧ py < y + m := by
    have hcov := hmem ⟨Int32.ofNat px, Int32.ofNat py⟩
    simp only [Covers, h1, h2] at hcov
    constructor
    · rintro ⟨e, he, hex, hey⟩
      have := hcov.1 ⟨e, he, Vec.ext' (hex.trans h1.symm) (hey.trans h2.symm)⟩
      omega
    · intro hp
      obtain ⟨e, he, rfl'⟩ := hcov.2 (by omega)
      exact ⟨e, he, by rw [rfl', h1], by rw [rfl', h2]⟩
  simp only [Picture.fill, hiff]

/-- The pixels of a glyph. -/
theorem mem_writeAscii {font : List UInt8} {ch : UInt8} {e : Vec × PixelColor} : e ∈ writeAscii font pos ch c ↔
    ∃ dy < 16, ∃ dx < 8, Picture.ink font ch dx dy = true ∧ e = (pos + ⟨Int32.ofNat dx, Int32.ofNat dy⟩, c) := by
  unfold writeAscii Picture.ink
  cases getFont font ch with
  | none => simp
  | some rows =>
    simp only [List.mem_flatMap, List.mem_map, List.mem_filter, List.mem_range, decide_eq_true_eq]
    constructor
    · rintro ⟨dy, hdy, dx, ⟨hdx, hbit⟩, rfl⟩
      exact ⟨dy, hdy, dx, hdx, hbit, rfl⟩
    · rintro ⟨dy, hdy, dx, hdx, hbit, rfl⟩
      exact ⟨dy, hdy, dx, ⟨hdx, hbit⟩, rfl⟩

theorem glyph (h : w.Shows W H p) (hx : pos.x.toInt = x) (hy : pos.y.toInt = y) (hW : x + 8 ≤ W) (hH : y + 16 ≤ H)
    (font : List UInt8) (ch : UInt8) (c : PixelColor) :
    ∃ w', w.draw (writeAscii font pos ch c) = some w' ∧ w'.Shows W H (p.glyph font x y ch c) := by
  have hwx := w.width.toInt_lt
  have hwy := w.height.toInt_lt
  have hw := h.width
  have hh := h.height
  have hplace : ∀ dx < 8, ∀ dy < 16, (pos.x + Int32.ofNat dx).toInt = x + dx ∧ (pos.y + Int32.ofNat dy).toInt = y + dy := by
    intro dx hdx dy hdy
    rw [Int32.toInt_add_ofNat (by omega), Int32.toInt_add_ofNat (by omega), hx, hy]
    exact ⟨rfl, rfl⟩
  have hin : ∀ e ∈ writeAscii font pos ch c, Inside w.size e.1 := by
    intro e he
    obtain ⟨dy, hdy, dx, hdx, _, rfl⟩ := mem_writeAscii.1 he
    obtain ⟨h1, h2⟩ := hplace dx hdx dy hdy
    exact h.inside.2 (by simp only [Vec.add_x, Vec.add_y, h1, h2]; omega)
  have hc : ∀ e ∈ writeAscii font pos ch c, e.2 = c := by
    intro e he
    obtain ⟨dy, _, dx, _, _, rfl⟩ := mem_writeAscii.1 he
    rfl
  obtain ⟨w', hw', hs⟩ := h.draw hin hc
  refine ⟨w', hw', hs.congr fun px py _ _ => ?_⟩
  have hiff : (∃ e ∈ writeAscii font pos ch c, e.1.x.toInt = px ∧ e.1.y.toInt = py) ↔
      ((x ≤ px ∧ px < x + 8) ∧ y ≤ py ∧ py < y + 16) ∧ Picture.ink font ch (px - x) (py - y) := by
    constructor
    · rintro ⟨e, he, hex, hey⟩
      obtain ⟨dy, hdy, dx, hdx, hbit, rfl⟩ := mem_writeAscii.1 he
      obtain ⟨h1, h2⟩ := hplace dx hdx dy hdy
      simp only [Vec.add_x, Vec.add_y, h1, h2] at hex hey
      obtain rfl : px = x + dx := by omega
      obtain rfl : py = y + dy := by omega
      rw [Nat.add_sub_cancel_left, Nat.add_sub_cancel_left]
      exact ⟨⟨by omega, by omega⟩, hbit⟩
    · rintro ⟨⟨⟨h1, h2⟩, h3, h4⟩, hbit⟩
      obtain ⟨h5, h6⟩ := hplace (px - x) (by omega) (py - y) (by omega)
      exact ⟨_, mem_writeAscii.2 ⟨py - y, by omega, px - x, by omega, hbit, rfl⟩,
        by simp only [Vec.add_x, h5]; omega, by simp only [Vec.add_y, h6]; omega⟩
  simp only [Picture.glyph, hiff]

theorem scroll (h : w.Shows W H p) {dx dy sx sy : Nat} (hdx : dst.x.toInt = dx) (hdy : dst.y.toInt = dy)
    (hsx : src.pos.x.toInt = sx) (hsy : src.pos.y.toInt = sy) (hn : src.size.x.toInt = n) (hm : src.size.y.toInt = m)
    (hW : dx + n ≤ W ∧ sx + n ≤ W) (hH : dy + m ≤ H ∧ sy + m ≤ H) (hne : dy ≠ sy) (hsmall : W < 536870912) :
    ∃ w', w.move dst src = some w' ∧ w'.Shows W H (p.scroll dx dy sx sy n m) := by
  have hw := h.width
  have hh := h.height
  have hs : Within w.size src := ⟨by simp only [size]; omega, by simp only [size]; omega⟩
  have hd : Within w.size ⟨dst, src.size⟩ := ⟨by simp only [size]; omega, by simp only [size]; omega⟩
  have hwide := w.width_toNat
  have hmov : w.shadowBuffer.Movable dst src := by
    refine .inr (.inr ⟨⟨by omega, .inr (by omega)⟩, fun he => ?_⟩)
    rw [he, hsy] at hdy
    exact absurd (by omega : dy = sy) hne
  obtain ⟨b, hb, -⟩ := ShadowBuffer.move_of_movable (h.buffered.holds hs) (h.buffered.holds hd) hmov
  obtain ⟨w', hw'⟩ : ∃ w', w.move dst src = some w' := ⟨_, by rw [move, hb]; rfl⟩
  obtain ⟨hsize, hb', -, hpix⟩ := h.buffered.move hs hd hw'
  obtain ⟨hw1, hh1⟩ := Vec.mk.inj hsize
  refine ⟨w', hw', ⟨hw1 ▸ h.width, hh1 ▸ h.height, hb', fun px py hpx hpy => ?_⟩⟩
  obtain ⟨h1, h2, hin⟩ := h.vec hpx hpy
  have hcol := hpix _ hin
  simp only [shadowColor, h1, h2, Covers, hdx, hdy, hn, hm] at hcol
  rw [hcol, Picture.scroll]
  by_cases hc : (dx ≤ px ∧ px < dx + n) ∧ dy ≤ py ∧ py < dy + m
  · have hcov : Covers ⟨dst, src.size⟩ ⟨Int32.ofNat px, Int32.ofNat py⟩ := by
      simp only [Covers, h1, h2]
      omega
    obtain ⟨hx', hy'⟩ := covers_sub hs hd hcov
    rw [if_pos (by omega), if_pos hc, hx', hy', h1, h2]
    have := h.pixel (px - dx + sx) (py - dy + sy) (by omega) (by omega)
    rw [← this]
    congr 1 <;> omega
  · rw [if_neg (by omega), if_neg hc]
    exact h.pixel px py hpx hpy

end Shows

end Window

/-! ## Cells -/

/-- A character and its colour, by row and column. -/
abbrev Grid := Nat → Nat → Option (UInt8 × PixelColor)

namespace Grid

def put (r k : Nat) (o : Option (UInt8 × PixelColor)) (g : Grid) : Grid := fun r' k' => if r' = r ∧
    k' = k then o else g r' k'

/-- `n` rows and `m` columns. -/
def erase (r k n m : Nat) (g : Grid) : Grid := fun r' k' => if (r ≤ r' ∧ r' < r + n) ∧ k ≤ k' ∧
    k' < k + m then none else g r' k'

/-- `n` rows from `r` on become what the rows below them were. -/
def scroll (r n : Nat) (g : Grid) : Grid := fun r' k' => if r ≤ r' ∧ r' < r + n then g (r' + 1) k' else g r' k'

/-- A pixel of a cell. -/
def color (font : List UInt8) (bg : PixelColor) (o : Option (UInt8 × PixelColor)) (dx dy : Nat) : PixelColor :=
  match o with
  | none => bg
  | some (ch, c) => if Picture.ink font ch dx dy then c else bg

/-- `R` rows and `K` columns of the grid are to be seen from the pixel `x`, `y` on. -/
def Renders (font : List UInt8) (bg : PixelColor) (x y R K : Nat) (g : Grid) (p : Picture) : Prop :=
  ∀ r k, r < R → k < K → ∀ dx dy, dx < 8 → dy < 16 → p (x + 8 * k + dx) (y + 16 * r + dy) = color font bg (g r k) dx dy

namespace Renders

variable {font : List UInt8} {bg c : PixelColor} {x y R K r k n m : Nat} {g : Grid} {p : Picture} {ch : UInt8}

theorem fill (h : Renders font bg x y R K g p) (r k n m : Nat) :
    Renders font bg x y R K (g.erase r k n m) (p.fill (x + 8 * k) (y + 16 * r) (8 * m) (16 * n) bg) := by
  intro r' k' hr hk dx dy hdx hdy
  simp only [Picture.fill, erase]
  by_cases hin : (r ≤ r' ∧ r' < r + n) ∧ k ≤ k' ∧ k' < k + m
  · rw [if_pos (by omega), if_pos hin]
    rfl
  · rw [if_neg (by omega), if_neg hin]
    exact h r' k' hr hk dx dy hdx hdy

/-- A character is written on an empty cell. -/
theorem glyph (h : Renders font bg x y R K g p) (hfree : g r k = none) (ch : UInt8) (c : PixelColor) :
    Renders font bg x y R K (g.put r k (some (ch, c))) (p.glyph font (x + 8 * k) (y + 16 * r) ch c) := by
  intro r' k' hr hk dx dy hdx hdy
  have hold := h r' k' hr hk dx dy hdx hdy
  simp only [Picture.glyph, put]
  by_cases hin : r' = r ∧ k' = k
  · obtain ⟨rfl, rfl⟩ := hin
    rw [hfree] at hold
    rw [hold, Nat.add_sub_cancel_left, Nat.add_sub_cancel_left, if_pos (And.intro rfl rfl)]
    simp only [color]
    by_cases hbit : Picture.ink font ch dx dy = true
    · rw [if_pos ⟨by omega, hbit⟩, if_pos hbit]
    · rw [if_neg fun hb => hbit hb.2, if_neg hbit]
  · rw [if_neg fun hb => by omega, if_neg hin]
    exact hold

theorem scroll (h : Renders font bg x y R K g p) (hR : r + n < R) (hK : K ≤ m) :
    Renders font bg x y R K (g.scroll r n) (p.scroll x (y + 16 * r) x (y + 16 * (r + 1)) (8 * m) (16 * n)) := by
  intro r' k' hr hk dx dy hdx hdy
  simp only [Picture.scroll, Grid.scroll]
  by_cases hin : r ≤ r' ∧ r' < r + n
  · rw [if_pos (by omega), if_pos hin, ← h (r' + 1) k' (by omega) hk dx dy hdx hdy]
    congr 1 <;> omega
  · rw [if_neg (by omega), if_neg hin]
    exact h r' k' hr hk dx dy hdx hdy

end Renders

/-- The picture of a grid alone. -/
def picture (font : List UInt8) (bg : PixelColor) (g : Grid) : Picture := fun x y => color font bg (g (y / 16) (x / 8))
    (x % 8) (y % 16)

theorem renders_iff {font : List UInt8} {bg : PixelColor} {R K : Nat} {g : Grid} {p : Picture} :
    Renders font bg 0 0 R K g p ↔ ∀ x y, x < 8 * K → y < 16 * R → p x y = picture font bg g x y := by
  constructor
  · intro h x y hx hy
    have hcell := h (y / 16) (x / 8) (by omega) (by omega) (x % 8) (y % 16) (by omega) (by omega)
    have hx' : 0 + 8 * (x / 8) + x % 8 = x := by omega
    have hy' : 0 + 16 * (y / 16) + y % 16 = y := by omega
    rwa [hx', hy'] at hcell
  · intro h r k hr hk dx dy hdx hdy
    rw [h _ _ (by omega) (by omega), picture]
    have h1 : (0 + 16 * r + dy) / 16 = r := by omega
    have h2 : (0 + 8 * k + dx) / 8 = k := by omega
    have h3 : (0 + 8 * k + dx) % 8 = dx := by omega
    have h4 : (0 + 16 * r + dy) % 16 = dy := by omega
    rw [h1, h2, h3, h4]

end Grid

end KinOS.Gui
