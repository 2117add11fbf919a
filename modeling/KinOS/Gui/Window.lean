import KinOS.Gui.ShadowBuffer
import KinOS.Lib.TransitionSystem

/-!
# The two pixel stores of a window

| here | there |
| --- | --- |
| `Window`, `Window.new`         | `Window`, its constructor (`servers/gui/window.hpp:17-80`, `window.cpp:65-79`) |
| `Window.colorAt`, `write`, `move` | `Window::At`, `Write`, `Move` (`window.cpp:102-119`) |
| `Agree`                        | `data_` and `shadow_buffer_`, of which `DrawTo` uses one or the other |

`data_` is a function of the position in the window. A negative size is a `resize` that throws, a write outside the window
is undefined; both are `none`.
-/

namespace KinOS.Gui

open TransitionSystem

/-- `shadow` is the `buffer_` of `shadow_buffer_`, whose resolution is the size of the window. -/
structure Window where
  width : Int32
  height : Int32
  sized : 0 ≤ width ∧ 0 ≤ height
  data : Vec → PixelColor
  shadow : Bytes.Mem
  transparentColor : Option PixelColor

namespace Window

/-- A window before anything is drawn. -/
def blank (width height : Int32) (h : 0 ≤ width ∧ 0 ≤ height) : Window :=
  ⟨width, height, h, fun _ => ⟨0, 0, 0⟩, fun _ => 0, none⟩

def new (width height : Int32) : Option Window :=
  if h : 0 ≤ width ∧ 0 ≤ height then some (blank width height h) else none

def size (w : Window) : Vec := ⟨w.width, w.height⟩

def shadowBuffer (w : Window) : ShadowBuffer := ⟨w.width.toUInt32, w.height.toUInt32, w.shadow⟩

/-- `At` -/
def colorAt (w : Window) (pos : Vec) : PixelColor := w.data pos

def write (w : Window) (pos : Vec) (c : PixelColor) : Option Window :=
  if Inside w.size pos then
    (w.shadowBuffer.writePixel pos c).map fun b =>
      { w with data := fun q => if q = pos then c else w.data q, shadow := b.buffer }
  else none

def move (w : Window) (dstPos : Vec) (src : Rectangle) : Option Window :=
  (w.shadowBuffer.move dstPos src).map fun b => { w with shadow := b.buffer }

end Window

/-- An operation on a window. -/
inductive Paint
  | write (pos : Vec) (c : PixelColor)
  | move (dstPos : Vec) (src : Rectangle)

namespace Window

def paint (w : Window) : Paint → Option Window
  | .write pos c => w.write pos c
  | .move dstPos src => w.move dstPos src

/-- The rectangle lies in the window. -/
structure Within (size : Vec) (r : Rectangle) : Prop where
  x : 0 ≤ r.pos.x.toInt ∧ 0 ≤ r.size.x.toInt ∧ r.pos.x.toInt + r.size.x.toInt ≤ size.x.toInt
  y : 0 ≤ r.pos.y.toInt ∧ 0 ≤ r.size.y.toInt ∧ r.pos.y.toInt + r.size.y.toInt ≤ size.y.toInt

/-- An operation on a window of the size `size` that stays in the window. -/
def InRange (size : Vec) : Paint → Prop
  | .write pos _ => Inside size pos
  | .move dstPos src => Within size src ∧ Within size ⟨dstPos, src.size⟩

/-- The colour of a pixel in the shadow buffer. -/
def shadowColor (w : Window) (pos : Vec) : Option PixelColor := w.shadowBuffer.colorAt pos.x.toInt pos.y.toInt

/-- Both stores hold the same picture. -/
def Agree (w : Window) : Prop := ∀ pos, Inside w.size pos → w.shadowColor pos = some (w.colorAt pos)

/-- What is moved is already there. -/
def Idle (w : Window) : Paint → Prop
  | .write .. => True
  | .move dstPos src => ∀ p, Rectangle.Covers ⟨dstPos, src.size⟩ p → w.colorAt p = w.colorAt (p - dstPos + src.pos)

/-- All pixels have their bytes in the shadow buffer. -/
def Buffered (w : Window) : Prop := 4 * w.width.toInt * w.height.toInt < 4294967296

variable {w w' : Window} {pos dst p : Vec} {src : Rectangle}

/-! ## Bytes and pixels -/

theorem sized_toInt (w : Window) : 0 ≤ w.width.toInt ∧ 0 ≤ w.height.toInt := by
  have h := w.sized
  rwa [Int32.le_iff_toInt_le, Int32.le_iff_toInt_le, Int32.toInt_zero] at h

theorem inside_toInt : Inside w.size p ↔
    (0 ≤ p.x.toInt ∧ p.x.toInt < w.width.toInt) ∧ 0 ≤ p.y.toInt ∧ p.y.toInt < w.height.toInt := by
  simp only [Inside, size, Int32.le_iff_toInt_le, Int32.lt_iff_toInt_lt, Int32.toInt_zero]

theorem width_toNat (w : Window) : (w.shadowBuffer.horizontalResolution.toNat : Int) = w.width.toInt :=
  Int32.toNat_toUInt32 w.sized_toInt.1

theorem height_toNat (w : Window) : (w.shadowBuffer.verticalResolution.toNat : Int) = w.height.toInt :=
  Int32.toNat_toUInt32 w.sized_toInt.2

theorem length_eq (w : Window) : (w.shadowBuffer.length : Int) = 4 * w.width.toInt * w.height.toInt % 4294967296 := by
  rw [← width_toNat, ← height_toNat, ShadowBuffer.length, UInt32.toNat_mul, UInt32.toNat_mul]
  have h4 : (4 : UInt32).toNat = 4 := rfl
  rw [h4]
  push_cast
  rw [Int.mul_emod, Int.emod_emod_of_dvd _ (Int.dvd_refl _), ← Int.mul_emod]

/-- The end of a pixel of the window. -/
theorem offset_end (hp : Inside w.size p) :
    0 ≤ w.shadowBuffer.offset p.x.toInt p.y.toInt ∧
      w.shadowBuffer.offset p.x.toInt p.y.toInt + 4 ≤ 4 * w.width.toInt * w.height.toInt := by
  obtain ⟨hx, hy⟩ := inside_toInt.1 hp
  have hmul := Int.mul_le_mul_of_nonneg_left (Int.add_one_le_of_lt hy.2) w.sized_toInt.1
  have hnn := Int.mul_nonneg w.sized_toInt.1 hy.1
  rw [Int.mul_add, Int.mul_one] at hmul
  rw [ShadowBuffer.offset, width_toNat, Int.mul_assoc]
  omega

theorem Buffered.length (h : w.Buffered) : (w.shadowBuffer.length : Int) = 4 * w.width.toInt * w.height.toInt := by
  have hnn := Int.mul_nonneg (Int.mul_nonneg (by decide : (0 : Int) ≤ 4) w.sized_toInt.1) w.sized_toInt.2
  rw [length_eq, Int.emod_eq_of_lt hnn h]

theorem Buffered.end_le (h : w.Buffered) (hp : Inside w.size p) :
    w.shadowBuffer.offset p.x.toInt p.y.toInt + 4 ≤ w.shadowBuffer.length := h.length ▸ (offset_end hp).2

theorem Buffered.holds (h : w.Buffered) (hs : Within w.size src) : w.shadowBuffer.Holds src where
  x := by
    rw [width_toNat]
    exact hs.x
  y := by
    rw [height_toNat]
    exact hs.y
  bytes hx hy := by
    have hsx := hs.x
    have hsy := hs.y
    simp only [size] at hsx hsy
    have hmul := Int.mul_le_mul_of_nonneg_left (by omega : src.pos.y.toInt + src.size.y.toInt - 1 + 1 ≤ w.height.toInt)
      w.sized_toInt.1
    rw [Int.mul_add, Int.mul_one] at hmul
    rw [h.length, ShadowBuffer.offset, width_toNat, Int.mul_assoc]
    omega

/-! ## One operation -/

/-- The two ends of a rectangle that lies in the window. -/
theorem Within.inside (hs : Within w.size src) (hp : src.Covers p) : Inside w.size p := by
  obtain ⟨⟨hx1, hx2⟩, hy1, hy2⟩ := hp
  have hx := hs.x
  have hy := hs.y
  simp only [size] at hx hy
  exact inside_toInt.2 ⟨⟨by omega, by omega⟩, by omega, by omega⟩

/-- Different pixels have different bytes. -/
theorem offset_apart {q : Vec} (hp : Inside w.size p) (hq : Inside w.size q) (hne : q ≠ p) :
    w.shadowBuffer.offset q.x.toInt q.y.toInt + 4 ≤ w.shadowBuffer.offset p.x.toInt p.y.toInt ∨
      w.shadowBuffer.offset p.x.toInt p.y.toInt + 4 ≤ w.shadowBuffer.offset q.x.toInt q.y.toInt := by
  obtain ⟨hpx, hpy⟩ := inside_toInt.1 hp
  obtain ⟨hqx, hqy⟩ := inside_toInt.1 hq
  rw [← width_toNat] at hpx hqx
  rcases Int.lt_trichotomy q.y.toInt p.y.toInt with hlt | he | hlt
  · exact .inl (ShadowBuffer.offset_lt (s := 1) hlt hqx.2 hpx.1)
  · have hx : q.x.toInt ≠ p.x.toInt := fun hx => hne (Vec.ext' hx he)
    rw [ShadowBuffer.offset, ShadowBuffer.offset, he]
    omega
  · exact .inr (ShadowBuffer.offset_lt (s := 1) hlt hpx.2 hqx.1)

theorem shadowBuffer_eq {b : ShadowBuffer} (hw : b.horizontalResolution = w.shadowBuffer.horizontalResolution)
    (hh : b.verticalResolution = w.shadowBuffer.verticalResolution) :
    (⟨w.width.toUInt32, w.height.toUInt32, b.buffer⟩ : ShadowBuffer) = b := by
  cases b
  simp only [shadowBuffer] at hw hh
  rw [hw, hh]

theorem Buffered.write (h : w.Buffered) (hp : Inside w.size pos) (c : PixelColor) :
    ∃ w', w.write pos c = some w' ∧ w'.size = w.size ∧ w'.Buffered ∧ ∀ q, Inside w.size q →
      w'.colorAt q = (if q = pos then c else w.colorAt q) ∧
      w'.shadowColor q = if q = pos then some c else w.shadowColor q := by
  obtain ⟨b, hb, hw, hh, hself, hother⟩ := ShadowBuffer.writePixel_colorAt (inside_toInt.1 hp).1.1 (inside_toInt.1 hp).2.1
    (h.end_le hp) c
  refine ⟨{ w with data := fun q => if q = pos then c else w.data q, shadow := b.buffer },
    by rw [Window.write, if_pos hp, hb, Option.map_some], rfl, h, fun q hq => ⟨rfl, ?_⟩⟩
  have hsame := shadowBuffer_eq hw hh
  simp only [shadowColor, shadowBuffer] at hsame ⊢
  rw [hsame]
  by_cases he : q = pos
  · rw [if_pos he, he, hself]
  · rw [if_neg he]
    exact hother _ _ (offset_end hq).1 (offset_apart hp hq he)

theorem covers_sub (hs : Within w.size src) (hd : Within w.size ⟨dst, src.size⟩) (hp : Rectangle.Covers ⟨dst, src.size⟩ p) :
    (p - dst + src.pos).x.toInt = src.pos.x.toInt + (p.x.toInt - dst.x.toInt) ∧
      (p - dst + src.pos).y.toInt = src.pos.y.toInt + (p.y.toInt - dst.y.toInt) := by
  obtain ⟨⟨hx1, hx2⟩, hy1, hy2⟩ := hp
  have hx := hs.x
  have hy := hs.y
  have hdx := hd.x
  have hdy := hd.y
  simp only at hx1 hx2 hy1 hy2 hdx hdy
  have hlx := w.size.x.toInt_lt
  have hly := w.size.y.toInt_lt
  have h1 := Int32.toInt_sub_cases p.x dst.x
  have h2 := Int32.toInt_sub_cases p.y dst.y
  have h3 := Int32.toInt_add_cases (p.x - dst.x) src.pos.x
  have h4 := Int32.toInt_add_cases (p.y - dst.y) src.pos.y
  simp only [Vec.add_x, Vec.add_y, Vec.sub_x, Vec.sub_y]
  omega

theorem Buffered.move (h : w.Buffered) (hs : Within w.size src) (hd : Within w.size ⟨dst, src.size⟩)
    (he : w.move dst src = some w') :
    w'.size = w.size ∧ w'.Buffered ∧ w'.data = w.data ∧ ∀ q, Inside w.size q →
      w'.shadowColor q = if Rectangle.Covers ⟨dst, src.size⟩ q then w.shadowColor (q - dst + src.pos)
        else w.shadowColor q := by
  obtain ⟨b', hb, rfl⟩ := Option.map_eq_some_iff.1 he
  obtain ⟨b, hb', hm⟩ := (ShadowBuffer.move_iff (h.holds hs) (h.holds hd)).2
    (ShadowBuffer.movable_of_move (h.holds hs) (h.holds hd) (by rw [hb]; rfl))
  cases hb.symm.trans hb'
  refine ⟨rfl, h, rfl, fun q hq => ?_⟩
  have hsame := shadowBuffer_eq hm.width hm.height
  obtain ⟨hin, hout⟩ := hm.colorAt
  simp only [shadowColor, shadowBuffer] at hsame ⊢
  rw [hsame]
  obtain ⟨hqx, hqy⟩ := inside_toInt.1 hq
  by_cases hc : Rectangle.Covers ⟨dst, src.size⟩ q
  · rw [if_pos hc]
    obtain ⟨hx, hy⟩ := covers_sub hs hd hc
    have hsrc : src.Covers (q - dst + src.pos) := by
      obtain ⟨⟨h1, h2⟩, h3, h4⟩ := hc
      simp only at h1 h2 h3 h4
      exact ⟨⟨by omega, by omega⟩, by omega, by omega⟩
    have hend := h.end_le (hs.inside hsrc)
    have hend' := h.end_le hq
    rw [hx, hy] at hend ⊢
    have hqd : ∀ a c : Int, c + (a - c) = a := fun a c => by omega
    have := hin (q.x.toInt - dst.x.toInt) (q.y.toInt - dst.y.toInt) (by have := hc.1; simp only at this; omega)
      (by have := hc.2; simp only at this; omega) (by rw [hqd, hqd]; exact hend') hend
    rw [hqd, hqd] at this
    exact this
  · rw [if_neg hc]
    have hwx := w.width_toNat
    have hwy := w.height_toNat
    exact hout _ _ (by omega) (by omega) hc

/-! ## Runs -/

theorem new_eq {width height : Int32} (h : new width height = some w) :
    (w.width = width ∧ w.height = height) ∧ w.colorAt = (fun _ => ⟨0, 0, 0⟩) ∧ w.shadow = fun _ => 0 := by
  unfold new at h
  split at h
  · cases h
    exact ⟨⟨rfl, rfl⟩, rfl, rfl⟩
  · cases h

/-- A new window is black in both stores, as far as the shadow buffer reaches. -/
theorem new_agree {width height : Int32} (h : new width height = some w) : w.Agree ↔ w.Buffered := by
  obtain ⟨_, hdata, hshadow⟩ := new_eq h
  refine ⟨fun ha => ?_, fun hb p hp => ?_⟩
  · by_contra hn
    simp only [Buffered, not_lt] at hn
    obtain ⟨hw0, hh0⟩ := w.sized_toInt
    have hw1 : 0 < w.width.toInt := by
      by_contra h0
      obtain h0 : w.width.toInt = 0 := by omega
      rw [h0] at hn
      omega
    have hh1 : 0 < w.height.toInt := by
      by_contra h0
      obtain h0 : w.height.toInt = 0 := by omega
      rw [h0] at hn
      omega
    -- the last pixel is not in the buffer
    have hlx := w.width.toInt_lt
    have hly := w.height.toInt_lt
    have hone : (1 : Int32).toInt = 1 := rfl
    have hx := Int32.toInt_sub_cases w.width 1
    have hy := Int32.toInt_sub_cases w.height 1
    have hin : Inside w.size ⟨w.width - 1, w.height - 1⟩ := inside_toInt.2 (by simp only; omega)
    have hcol := ha _ hin
    have hlen := w.shadowBuffer.length_lt
    have hmul : w.width.toInt * (w.height.toInt - 1) = w.width.toInt * w.height.toInt - w.width.toInt := by ring
    have hx' : (w.width - 1).toInt = w.width.toInt - 1 := by omega
    have hy' : (w.height - 1).toInt = w.height.toInt - 1 := by omega
    rw [shadowColor, ShadowBuffer.colorAt, ShadowBuffer.offset, width_toNat, hx', hy', hmul, if_neg] at hcol
    · cases hcol
    · rw [Int.mul_assoc] at hn
      omega
  · rw [hdata, shadowColor, ShadowBuffer.colorAt, if_pos (hb.end_le hp)]
    simp only [ShadowBuffer.byteAt, shadowBuffer, hshadow]

/-- **Step lemma.** Both stores of a window that is drawn on agree afterwards unless a move changes the picture. -/
theorem Agree.paint (ha : w.Agree) (hb : w.Buffered) {e : Paint} (hr : InRange w.size e) (he : w.paint e = some w') :
    w'.Agree ↔ w.Idle e := by
  cases e with
  | write pos c =>
    obtain ⟨w1, h1, hsize, _, hq⟩ := hb.write hr c
    cases h1.symm.trans he
    refine iff_of_true (fun q hin => ?_) trivial
    rw [hsize] at hin
    obtain ⟨hd, hs⟩ := hq q hin
    rw [hd, hs]
    split
    · rfl
    · exact ha q hin
  | move dst src =>
    obtain ⟨hsize, _, hdata, hq⟩ := hb.move hr.1 hr.2 he
    have hsrc : ∀ {p}, Rectangle.Covers ⟨dst, src.size⟩ p → Inside w.size (p - dst + src.pos) := by
      intro p hp
      obtain ⟨hx, hy⟩ := covers_sub hr.1 hr.2 hp
      obtain ⟨⟨h1, h2⟩, h3, h4⟩ := hp
      simp only at h1 h2 h3 h4
      exact hr.1.inside ⟨⟨by omega, by omega⟩, by omega, by omega⟩
    have hcol : ∀ q, w'.colorAt q = w.colorAt q := fun q => congrFun hdata q
    refine ⟨fun ha' p hp => ?_, fun hidle q hin => ?_⟩
    · have hin := hr.2.inside hp
      have hnow := ha' p (hsize ▸ hin)
      rw [hq p hin, if_pos hp, ha _ (hsrc hp), hcol] at hnow
      exact (Option.some.inj hnow).symm
    · rw [hsize] at hin
      rw [hq q hin, hcol]
      split
      · next hc => rw [ha _ (hsrc hc), hidle q hc]
      · exact ha q hin

theorem paint_buffered (hb : w.Buffered) {e : Paint} (hr : InRange w.size e) (he : w.paint e = some w') : w'.Buffered := by
  cases e with
  | write pos c =>
    obtain ⟨w1, h1, _, hb1, _⟩ := hb.write hr c
    cases h1.symm.trans he
    exact hb1
  | move dst src => exact (hb.move hr.1 hr.2 he).2.1

theorem paint_size {e : Paint} (he : w.paint e = some w') : w'.size = w.size := by
  cases e with
  | write pos c =>
    simp only [paint, write] at he
    split at he
    · obtain ⟨b, _, rfl⟩ := Option.map_eq_some_iff.1 he
      rfl
    · cases he
  | move dst src =>
    obtain ⟨b, _, rfl⟩ := Option.map_eq_some_iff.1 he
    rfl

theorem along_inRange : ∀ (es : List Paint) {w : Window}, (∀ e ∈ es, InRange w.size e) →
    Along paint (fun w e => InRange w.size e) w es
  | [], _, _ => trivial
  | e :: es, _, h => fun _ he => ⟨h e (List.mem_cons_self ..), along_inRange es fun e' he' => by
      rw [paint_size he]
      exact h e' (List.mem_cons_of_mem _ he')⟩

/-- **The two stores of a window agree in every state of a run exactly if no move changes the picture**, and all pixels of
the window have their bytes. -/
theorem stores_agree_iff {width height : Int32} {es : List Paint} (h0 : new width height = some w)
    (hr : ∀ e ∈ es, InRange ⟨width, height⟩ e) :
    States paint Agree w es ↔ 4 * width.toInt * height.toInt < 4294967296 ∧ Along paint Idle w es := by
  obtain ⟨⟨rfl, rfl⟩, _⟩ := new_eq h0
  change _ ↔ w.Buffered ∧ _
  by_cases hb : w.Buffered
  · rw [and_iff_right hb]
    exact (Along.iff_states (fun _ _ _ hb hr he => paint_buffered hb hr he)
      (fun _ _ _ hb ha hr he => ha.paint hb hr he) es hb ((new_agree h0).2 hb) (along_inRange es hr)).symm
  · exact iff_of_false (fun hs => hb ((new_agree h0).1 hs.start)) fun h => hb h.1

/-- A row of a black window is moved, and a pixel is written. -/
theorem stores_agree_black : ∃ w, new 2 2 = some w ∧
    States paint Agree w [.move ⟨0, 0⟩ ⟨⟨0, 1⟩, ⟨2, 1⟩⟩, .write ⟨1, 1⟩ ⟨255, 255, 255⟩] := by
  obtain ⟨w, hw⟩ : ∃ w, new 2 2 = some w := ⟨_, rfl⟩
  refine ⟨w, hw, (stores_agree_iff hw ?_).2 ⟨by decide, ?_⟩⟩
  · simp only [List.forall_mem_cons, InRange]
    exact ⟨⟨⟨by decide, by decide⟩, by decide, by decide⟩, by decide, by simp⟩
  · have hblack := (new_eq hw).2.1
    exact fun _ _ => ⟨fun p _ => by rw [hblack], fun _ _ => ⟨trivial, trivial⟩⟩

/-- A white pixel is moved. -/
theorem stores_differ : ¬ ∀ (width height : Int32) (w : Window) (es : List Paint), new width height = some w →
    (∀ e ∈ es, InRange ⟨width, height⟩ e) → States paint Agree w es := by
  intro h
  have hs := h 1 2 _ [.write ⟨0, 0⟩ ⟨255, 255, 255⟩, .move ⟨0, 1⟩ ⟨⟨0, 0⟩, ⟨1, 1⟩⟩] rfl (by
    simp only [List.forall_mem_cons, InRange]
    exact ⟨by decide, ⟨⟨by decide, by decide⟩, by decide, by decide⟩, by simp⟩)
  have hlast := ((hs.2 _ rfl).2 _ rfl : Agree _) ⟨0, 1⟩ (by decide)
  revert hlast
  decide

end Window

end KinOS.Gui
