import KinOS.Gui.PixelFormats

/-!
# What a layer paints

| here | there |
| --- | --- |
| `Window.sheet`    | a window at a position, by the colours it shows on the screen |
| `Window.patch`    | what `Window::DrawTo` (`servers/gui/window.cpp:80-100`) paints of it: with a transparent colour the area is not looked at |
| `Addressable`     | a frame buffer with offsets that are `unsigned int`s and rows with lengths that are `int`s |

`drawTo_shown` leads from the bytes that `DrawTo` writes to colours, for a screen that expects blue first, as the shadow
buffers have it. A window that has left the screen, and be it so far that its end has gone round, paints nothing.
-/

namespace KinOS.Gui

open Bytes Rectangle

structure FrameBufferConfig.Addressable (config : FrameBufferConfig) : Prop where
  columns : config.horizontalResolution.toNat < 536870912
  rows : config.verticalResolution.toNat < 1073741824
  bytes : 4 * config.pixelsPerScanLine.toNat * config.verticalResolution.toNat ≤ 4294967296

namespace Window

/-- The colour of a pixel of the window, if it has one. -/
def seen (w : Window) (q : Vec) : Option PixelColor :=
  if w.transparentColor = none then w.shadowColor q
  else if w.transparentColor = some (w.colorAt q) then none
  else some (w.colorAt q)

def sheet (w : Window) (pos p : Vec) : Option PixelColor := if Covers ⟨pos, w.size⟩ p then w.seen (p - pos) else none

def patch (w : Window) (pos : Vec) (area : Rectangle) (p : Vec) : Option PixelColor :=
  if w.transparentColor = none ∧ ¬ area.Covers p then none else w.sheet pos p

variable {w : Window} {config : FrameBufferConfig} {pos p : Vec} {area : Rectangle} {drawn : Bytewise} {f : Mem}

theorem sheet_of_not_covers (h : ¬ Covers ⟨pos, w.size⟩ p) : w.sheet pos p = none := if_neg h

theorem patch_of_covers (h : area.Covers p) : w.patch pos area p = w.sheet pos p := if_neg fun hn => hn.2 h

theorem patch_of_plain (ht : w.transparentColor = none) (h : ¬ area.Covers p) : w.patch pos area p = none := if_pos ⟨ht, h⟩

theorem patch_of_transparent (ht : w.transparentColor ≠ none) : w.patch pos area p = w.sheet pos p := if_neg fun hn =>
    ht hn.1

theorem Buffered.whole (h : w.Buffered) : Whole w.size := ⟨w.sized_toInt.1, w.sized_toInt.2, h⟩

/-- A plain window has a colour wherever it is. -/
theorem sheet_isSome (ht : w.transparentColor = none) (hb : w.Buffered) (hc : Covers ⟨pos, w.size⟩ p) :
    (w.sheet pos p).isSome := by
  obtain ⟨⟨hx1, hx2⟩, hy1, hy2⟩ := hc
  have hin : Inside w.size (p - pos) := by
    have hwx := w.width.toInt_lt
    have hwy := w.height.toInt_lt
    have h1 := Int32.toInt_sub_cases p.x pos.x
    have h2 := Int32.toInt_sub_cases p.y pos.y
    simp only [size] at hx1 hx2 hy1 hy2
    refine inside_toInt.2 ?_
    simp only [Vec.sub_x, Vec.sub_y]
    omega
  rw [sheet, if_pos ⟨⟨hx1, hx2⟩, hy1, hy2⟩, seen, if_pos ht, shadowColor, ShadowBuffer.colorAt, if_pos (hb.end_le hin)]
  rfl

end Window

namespace FrameBufferConfig.Addressable

variable {config : FrameBufferConfig} {p : Vec}

theorem isScreen (h : config.Addressable) : IsScreen config.screenSize := by
  obtain ⟨hx, hy⟩ := Window.screen_toInt config
  have hc := h.columns
  have hr := h.rows
  exact ⟨by omega, by omega⟩

/-- The bytes of a pixel. -/
theorem offset_lt (h : config.Addressable) (hp : Inside config.screenSize p) : 0 ≤ config.offset p ∧
    config.offset p + 4 ≤ 4294967296 := by
  obtain ⟨hx, hy⟩ := Window.screen_toInt config
  obtain ⟨⟨hx0, hx1⟩, hy0, hy1⟩ := hp
  rw [Int32.le_iff_toInt_le, Int32.toInt_zero] at hx0 hy0
  rw [Int32.lt_iff_toInt_lt] at hx1 hy1
  refine ⟨Window.offset_nonneg hx0 hy0, ?_⟩
  have hw := config.wide
  have hb : (4 * config.pixelsPerScanLine.toNat * config.verticalResolution.toNat : Int) ≤ 4294967296 := by
    exact_mod_cast h.bytes
  have hmul := Int.mul_le_mul_of_nonneg_left (by omega : p.y.toInt + 1 ≤ config.verticalResolution.toNat)
    (Int.natCast_nonneg config.pixelsPerScanLine.toNat)
  rw [Int.mul_add, Int.mul_one] at hmul
  rw [Int.mul_assoc] at hb
  unfold FrameBufferConfig.offset
  omega

end FrameBufferConfig.Addressable

namespace Window

variable {w : Window} {config : FrameBufferConfig} {pos p : Vec} {area : Rectangle} {drawn : Bytewise} {f : Mem}

theorem drawable_of_buffered (hs : config.Addressable) (hb : w.Buffered) : w.Drawable config pos area := by
  obtain ⟨hsx, hsy⟩ := screen_toInt config
  obtain ⟨hlx, hlx'⟩ := visibleTo_le config.screenSize.x pos.x w.width area.pos.x area.size.x
  obtain ⟨hly, hly'⟩ := visibleTo_le config.screenSize.y pos.y w.height area.pos.y area.size.y
  obtain ⟨hfx, hfx'⟩ := le_visibleFrom pos.x area.pos.x
  obtain ⟨hfy, hfy'⟩ := le_visibleFrom pos.y area.pos.y
  unfold Drawable
  generalize visibleFrom pos.x area.pos.x = x0 at *
  generalize visibleFrom pos.y area.pos.y = y0 at *
  generalize visibleTo config.screenSize.x pos.x w.width area.pos.x area.size.x = x1 at *
  generalize visibleTo config.screenSize.y pos.y w.height area.pos.y area.size.y = y1 at *
  by_cases hx : x1 ≤ x0
  · exact .inl hx
  by_cases hy : y1 ≤ y0
  · exact .inr (.inl hy)
  refine .inr (.inr ⟨?_, ?_, ?_⟩)
  · have := hs.columns
    omega
  · have hnn := Int.mul_nonneg (Int.mul_nonneg (by decide : (0 : Int) ≤ 4) w.sized_toInt.1) w.sized_toInt.2
    have hlast := Int.mul_le_mul_of_nonneg_left (by omega : y1 - 1 - pos.y.toInt + 1 ≤ w.height.toInt) w.sized_toInt.1
    rw [Int.mul_add, Int.mul_one] at hlast
    rw [Int.emod_eq_of_lt hnn hb, Int.mul_assoc]
    omega
  · have hb' : (4 * config.pixelsPerScanLine.toNat * config.verticalResolution.toNat : Int) ≤ 4294967296 := by
      exact_mod_cast hs.bytes
    have hmul := Int.mul_le_mul_of_nonneg_left (by omega : y1 - 1 + 1 ≤ config.verticalResolution.toNat)
      (Int.natCast_nonneg config.pixelsPerScanLine.toNat)
    rw [Int.mul_add, Int.mul_one] at hmul
    rw [Int.mul_assoc] at hb'
    have hwide := config.wide
    omega

/-- Drawing a plain window. -/
theorem exists_exact (hs : config.Addressable) (ht : w.transparentColor = none) (hb : w.Buffered)
    (ha : Whole area.size) (pos : Vec) :
    ∃ drawn, w.drawTo config pos area = some drawn ∧ w.Exact config pos area drawn := by
  have harea : area.Sized := ⟨ha.x, ha.y⟩
  by_cases hfit : area.Fits ∧ Fits ⟨pos, w.size⟩
  · exact (drawTo_exact_iff ht harea hfit.1 hfit.2).2 (drawable_of_buffered hs hb)
  · refine exact_of_empty ht harea fun x y hv => hfit ?_
    -- a pixel of the screen keeps both from going round
    obtain ⟨⟨⟨hx0, hx1⟩, hy0, hy1⟩, hva, hvw⟩ := hv
    have hlx := config.screenSize.x.toInt_lt
    have hly := config.screenSize.y.toInt_lt
    have h1 := Int32.toInt_ofInt_of_le (by omega : (-2 ^ 31 : Int) ≤ x) (by omega)
    have h2 := Int32.toInt_ofInt_of_le (by omega : (-2 ^ 31 : Int) ≤ y) (by omega)
    have hp : Inside config.screenSize ⟨Int32.ofInt x, Int32.ofInt y⟩ := by
      simp only [Inside, Int32.le_iff_toInt_le, Int32.lt_iff_toInt_lt, Int32.toInt_zero, h1, h2]
      exact ⟨⟨hx0, hx1⟩, hy0, hy1⟩
    refine ⟨fits_of_covers hs.isScreen ha hp ?_, fits_of_covers hs.isScreen hb.whole hp ?_⟩
    · simp only [Covers, h1, h2]
      exact hva
    · simp only [Covers, h1, h2]
      exact hvw

/-- A pixel that is not visible keeps its bytes. -/
theorem Exact.shown_of_hidden (he : w.Exact config pos area drawn) (hp : Inside config.screenSize p)
    (hn : ¬ Visible config.screenSize pos w.size area p.x.toInt p.y.toInt)
    (f : Mem) : config.shown (put f drawn) p = config.shown f p := by
  have h0 := he.byte_of_hidden hp hn f (by decide : 0 < 4)
  have h1 := he.byte_of_hidden hp hn f (by decide : 1 < 4)
  have h2 := he.byte_of_hidden hp hn f (by decide : 2 < 4)
  rw [Nat.add_zero] at h0
  simp only [FrameBufferConfig.shown, h0, h1, h2]

theorem drawTo_shown_plain (hs : config.Addressable) (hf : config.pixelFormat = .bgrResv8BitPerColor)
    (ht : w.transparentColor = none)
    (hb : w.Buffered) (ha : Whole area.size) (pos : Vec) : ∃ drawn, w.drawTo config pos area = some drawn ∧
    ∀ (f : Mem) (p : Vec),
      Inside config.screenSize p → config.shown (put f drawn) p = (w.patch pos area p).getD (config.shown f p) := by
  obtain ⟨drawn, hd, he⟩ := exists_exact hs ht hb ha pos
  refine ⟨drawn, hd, fun f p hp => ?_⟩
  by_cases hv : Visible config.screenSize pos w.size area p.x.toInt p.y.toInt
  · have hcov : Covers ⟨pos, w.size⟩ p := hv.2.2
    obtain ⟨c, hc⟩ := Option.isSome_iff_exists.1 (sheet_isSome ht hb hcov)
    rw [patch_of_covers hv.2.1, hc, Option.getD_some]
    rw [sheet, if_pos hcov, seen, if_pos ht, shadowColor] at hc
    obtain ⟨hx, hy⟩ := visible_sub hv
    rw [hx, hy] at hc
    rw [he.colour hv hc f, hf]
    rfl
  · rw [he.shown_of_hidden hp hv]
    have hnone : w.patch pos area p = none := by
      by_cases hpa : area.Covers p
      · rw [patch_of_covers hpa, sheet_of_not_covers]
        intro hpw
        simp only [Inside, Int32.le_iff_toInt_le, Int32.lt_iff_toInt_lt, Int32.toInt_zero] at hp
        exact hv ⟨hp, hpa, hpw⟩
      · exact patch_of_plain ht hpa
    rw [hnone]
    rfl

/-! ## With a transparent colour -/

theorem put_append (a b : Bytewise) (f : Mem) : put f (a ++ b) = put (put f a) b := by
  have hstamp : ∀ (as bs : List (Nat × Option UInt8)) (f : Mem),
      Painter.stamp (as ++ bs) f = Painter.stamp bs (Painter.stamp as f) := by
    intro as bs
    induction as with
    | nil => exact fun _ => rfl
    | cons e as ih => exact fun f => ih _
  rw [put, List.map_append, hstamp]
  rfl

/-- Another pixel is written. -/
theorem shown_writePixel_ne (hs : config.Addressable) {q : Vec} (hp : Inside config.screenSize p)
    (hq : Inside config.screenSize q)
    (hne : p ≠ q) (c : PixelColor) (f : Mem) : config.shown (put f (config.writePixel q c)) p = config.shown f p := by
  obtain ⟨hp0, hp1⟩ := hs.offset_lt hp
  obtain ⟨hq0, hq1⟩ := hs.offset_lt hq
  simp only [Inside, Int32.le_iff_toInt_le, Int32.lt_iff_toInt_lt, Int32.toInt_zero] at hp hq
  have hres := (screen_toInt config).1
  have hwide := config.wide
  have haddr : config.pixelAt q = (config.offset q).toNat := by
    have hmod := pixelAt_emod config hq.1.1 hq.2.1
    rw [← FrameBufferConfig.offset, Int.emod_eq_of_lt hq0 (by omega)] at hmod
    omega
  -- no byte of one is a byte of the other
  have hfar : ∀ k < 4, ∀ k' < 4, (config.offset p).toNat + k ≠ (config.offset q).toNat + k' := by
    intro k hk k' hk' he
    have heq : 4 * ((config.pixelsPerScanLine.toNat : Int) * p.y.toInt + p.x.toInt) + k =
        4 * (config.pixelsPerScanLine.toNat * q.y.toInt + q.x.toInt) + k' := by
      unfold FrameBufferConfig.offset at he hp0 hq0
      omega
    obtain ⟨⟨hx, hy⟩, -⟩ := offset_inj (by omega) (by omega) hk hk' heq
    exact hne (Vec.ext' hx hy)
  have hkeep : ∀ k < 4, put f (config.writePixel q c) ((config.offset p).toNat + k) = f ((config.offset p).toNat + k) := by
    intro k hk
    refine put_of_not_mem (fun v hv => ?_) f
    have h0 := hfar k hk 0 (by decide)
    have h1 := hfar k hk 1 (by decide)
    have h2 := hfar k hk 2 (by decide)
    unfold FrameBufferConfig.writePixel at hv
    split at hv <;> simp only [List.mem_cons, Prod.mk.injEq, List.not_mem_nil, or_false, haddr] at hv <;> omega
  have h0 := hkeep 0 (by decide)
  rw [Nat.add_zero] at h0
  simp only [FrameBufferConfig.shown, h0, hkeep 1 (by decide), hkeep 2 (by decide)]

/-- Pixel after pixel, of which some are left out. -/
theorem shown_writePixels (hs : config.Addressable) (hp : Inside config.screenSize p) {e : Vec × Vec → Option PixelColor} :
    ∀ {ps : List (Vec × Vec)}, (∀ x ∈ ps, Inside config.screenSize x.1) → ∀ f : Mem,
      config.shown (put f (ps.flatMap fun x => (e x).elim [] (config.writePixel x.1))) p =
        Painter.stamp (ps.map fun x => (x.1, e x)) (config.shown f) p := by
  intro ps
  induction ps with
  | nil => exact fun _ _ => rfl
  | cons x ps ih =>
    intro hin f
    rw [List.flatMap_cons, put_append, ih fun y hy => hin y (List.mem_cons_of_mem _ hy), List.map_cons, Painter.stamp]
    have hx := hin x (List.mem_cons_self ..)
    refine Painter.stamp_congr _ ?_
    cases he : e x with
    | none =>
      rw [Option.getD_none, ite_self]
      rfl
    | some c =>
      rw [Option.elim_some, Option.getD_some]
      by_cases hpx : p = x.1
      · simp only [Inside, Int32.le_iff_toInt_le, Int32.toInt_zero] at hx
        rw [if_pos hpx, hpx]
        exact shown_writePixel hx.1.1 hx.2.1 (by have := hs.offset_lt (hpx ▸ hp); omega) f
      · rw [if_neg hpx]
        exact shown_writePixel_ne hs hp hx hpx c f

theorem drawTo_shown_transparent (hs : config.Addressable) {tc : PixelColor} (ht : w.transparentColor = some tc)
    (hb : w.Buffered)
    (area : Rectangle) (pos : Vec) : ∃ drawn, w.drawTo config pos area = some drawn ∧ ∀ (f : Mem) (p : Vec),
      Inside config.screenSize p → config.shown (put f drawn) p = (w.patch pos area p).getD (config.shown f p) := by
  let e : Vec × Vec → Option PixelColor := fun x => if w.colorAt x.2 ≠ tc then some (w.colorAt x.2) else none
  have hdrawn : w.drawTo config pos area =
      some ((blits config.screenSize true pos w.size area).flatMap fun x => (e x).elim [] (config.writePixel x.1)) := by
    simp only [drawTo, ht, Option.some.injEq]
    refine List.flatMap_congr fun x _ => ?_
    simp only [e]
    split <;> rfl
  refine ⟨_, hdrawn, fun f p hp => ?_⟩
  have hmem : ∀ {p q : Vec}, (p, q) ∈ blits config.screenSize true pos w.size area ↔ _ :=
    mem_blits_transparent hs.isScreen hb.whole
  rw [shown_writePixels hs hp fun x hx => (hmem.1 hx).1.1, patch_of_transparent (by rw [ht]; exact Option.some_ne_none tc)]
  unfold sheet
  by_cases hc : Covers ⟨pos, w.size⟩ p
  · have hseen : e (p, p - pos) = w.seen (p - pos) := by
      simp only [e, seen, ht, reduceCtorEq, if_false, Option.some.injEq, eq_comm, ite_not]
    rw [if_pos hc, ← hseen]
    refine Painter.stamp_of_mem (List.mem_map.2 ⟨(p, p - pos), hmem.2 ⟨⟨hp, hc⟩, rfl⟩, rfl⟩) (fun o ho => ?_) _
    obtain ⟨⟨p', q⟩, hq, he⟩ := List.mem_map.1 ho
    obtain ⟨rfl, rfl⟩ := Prod.mk.inj he
    rw [(hmem.1 hq).2]
  · rw [if_neg hc, Option.getD_none]
    refine Painter.stamp_of_not_mem (fun o ho => hc ?_) _
    obtain ⟨⟨p', q⟩, hq, he⟩ := List.mem_map.1 ho
    obtain ⟨rfl, rfl⟩ := Prod.mk.inj he
    exact (hmem.1 hq).1.2

/-- **What `DrawTo` paints**, with a transparent colour or without. -/
theorem drawTo_shown (hs : config.Addressable) (hf : config.pixelFormat = .bgrResv8BitPerColor) (hb : w.Buffered)
    (ha : Whole area.size)
    (pos : Vec) : ∃ drawn, w.drawTo config pos area = some drawn ∧ ∀ (f : Mem) (p : Vec), Inside config.screenSize p →
      config.shown (put f drawn) p = (w.patch pos area p).getD (config.shown f p) := by
  cases ht : w.transparentColor with
  | none => exact drawTo_shown_plain hs hf ht hb ha pos
  | some tc => exact drawTo_shown_transparent hs ht hb area pos

end Window

end KinOS.Gui
