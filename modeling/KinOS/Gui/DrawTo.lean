import KinOS.Gui.Window

/-!
# From the shadow buffer to the screen

| here | there |
| --- | --- |
| `FrameBufferConfig`, `PixelFormat` | the types of these names (`kernel/frame_buffer_config.hpp`) |
| `copyLine`                     | the system call `CopyToFrameBuffer` (`kernel/syscall.cpp:236-248`) |
| `ShadowBuffer.copyToFrameBuffer` | `ShadowBuffer::CopyToFrameBuffer` (`servers/gui/shadow_buffer.cpp:36-60`) |
| `Window.drawTo`                | `Window::DrawTo` (`servers/gui/window.cpp:80-100`) |

What is drawn is the list of the bytes that are written to the frame buffer, in order, with their offsets. `none` is a
`memcpy` that leaves the shadow buffer.
-/

namespace KinOS.Gui

inductive PixelFormat
  | rgbResv8BitPerColor | bgrResv8BitPerColor
deriving DecidableEq, Repr

/-- A frame buffer that the firmware has set up: its resolution fits in `int`s, and a scan line holds a row. -/
structure FrameBufferConfig where
  pixelsPerScanLine : UInt32
  horizontalResolution : UInt32
  verticalResolution : UInt32
  pixelFormat : PixelFormat
  sized : horizontalResolution.toNat < 2147483648 ∧ verticalResolution.toNat < 2147483648
  wide : horizontalResolution.toNat ≤ pixelsPerScanLine.toNat

abbrev Bytewise := List (Nat × UInt8)

namespace FrameBufferConfig

/-- `ScreenSize` -/
def screenSize (config : FrameBufferConfig) : Vec :=
  ⟨config.horizontalResolution.toInt32, config.verticalResolution.toInt32⟩

/-- `PixelAt` -/
def pixelAt (config : FrameBufferConfig) (pos : Vec) : Nat :=
  (4 * (config.pixelsPerScanLine * pos.y.toUInt32 + pos.x.toUInt32)).toNat

/-- `CopyToFrameBuffer`, from the offset `src` of a shadow buffer. -/
def copyLine (config : FrameBufferConfig) (b : ShadowBuffer) (src : Nat) (copyStart : Vec) (bytesPerCopyLine : Int32) :
    Option Bytewise :=
  let n := sizeT bytesPerCopyLine
  if n = 0 ∨ src + n ≤ b.length then
    some ((List.range n).map fun k => (config.pixelAt copyStart + k, b.buffer (src + k)))
  else none

/-- `WritePixel`, by the writer that `InitializeGraphics` has chosen. -/
def writePixel (config : FrameBufferConfig) (pos : Vec) (c : PixelColor) : Bytewise :=
  let p := config.pixelAt pos
  match config.pixelFormat with
  | .rgbResv8BitPerColor => [(p, c.r), (p + 1, c.g), (p + 2, c.b)]
  | .bgrResv8BitPerColor => [(p, c.b), (p + 1, c.g), (p + 2, c.r)]

end FrameBufferConfig

namespace ShadowBuffer

/-- `ShadowBufferSize` -/
def size (b : ShadowBuffer) : Vec := ⟨b.horizontalResolution.toInt32, b.verticalResolution.toInt32⟩

/-- The loop over the rows of the area: the next row of the screen and of the shadow buffer. -/
def copyLines (b : ShadowBuffer) (config : FrameBufferConfig) (x bytesPerCopyLine : Int32) : Nat → Int32 → Nat →
    Option Bytewise
  | 0, _, _ => some []
  | rows + 1, y, shadowBuf => do
    let line ← config.copyLine b shadowBuf ⟨x, y⟩ bytesPerCopyLine
    let rest ← b.copyLines config x bytesPerCopyLine rows (y + 1) (shadowBuf + (4 * b.pixelsPerScanLine).toNat)
    return line ++ rest

def copyToFrameBuffer (b : ShadowBuffer) (config : FrameBufferConfig) (pos : Vec) (area : Rectangle) : Option Bytewise :=
  let copyAreaShifted : Rectangle := ⟨pos, area.size⟩
  let shadowBufferOutline : Rectangle := ⟨pos - area.pos, b.size⟩
  let frameBufferOutline : Rectangle := ⟨⟨0, 0⟩, config.screenSize⟩
  let copyArea := (frameBufferOutline.inter shadowBufferOutline).inter copyAreaShifted
  let shadowBufStartPos := copyArea.pos - (pos - area.pos)
  b.copyLines config copyArea.pos.x (4 * copyArea.size.x) copyArea.size.y.toInt.toNat copyArea.pos.y
    (b.shadowAddrAt shadowBufStartPos)

end ShadowBuffer

namespace Window

def drawTo (w : Window) (config : FrameBufferConfig) (pos : Vec) (area : Rectangle) : Option Bytewise :=
  match w.transparentColor with
  | none =>
    let intersection := area.inter ⟨pos, w.size⟩
    w.shadowBuffer.copyToFrameBuffer config intersection.pos ⟨intersection.pos - pos, intersection.size⟩
  | some tc => some ((blits config.screenSize true pos w.size area).flatMap fun (p, q) =>
      if w.colorAt q ≠ tc then config.writePixel p (w.colorAt q) else [])

/-! ## What is to be seen of a window -/

/-- A pixel that is on the screen, in the area and in a window of this size and place. -/
def Visible (screen pos size : Vec) (area : Rectangle) (x y : Int) : Prop :=
  ((0 ≤ x ∧ x < screen.x.toInt) ∧ 0 ≤ y ∧ y < screen.y.toInt) ∧
  ((area.pos.x.toInt ≤ x ∧ x < area.pos.x.toInt + area.size.x.toInt) ∧
    area.pos.y.toInt ≤ y ∧ y < area.pos.y.toInt + area.size.y.toInt) ∧
  (pos.x.toInt ≤ x ∧ x < pos.x.toInt + size.x.toInt) ∧ pos.y.toInt ≤ y ∧ y < pos.y.toInt + size.y.toInt

/-- Each visible pixel is drawn with the four bytes that the shadow buffer has for it, and nothing else is drawn. -/
structure Exact (w : Window) (config : FrameBufferConfig) (pos : Vec) (area : Rectangle) (drawn : Bytewise) : Prop where
  reads : ∀ x y, Visible config.screenSize pos w.size area x y →
    w.shadowBuffer.offset (x - pos.x.toInt) (y - pos.y.toInt) + 4 ≤ w.shadowBuffer.length
  writes : ∀ (a : Nat) v, (a, v) ∈ drawn ↔ ∃ x y, Visible config.screenSize pos w.size area x y ∧ ∃ k < 4,
    (a : Int) = 4 * (config.pixelsPerScanLine.toNat * y + x) + (k : Nat) ∧
      v = w.shadowBuffer.byteAt (x - pos.x.toInt) (y - pos.y.toInt) k

/-- As `Exact`, with the place of a pixel in the shadow buffer computed in an `unsigned int`. -/
def Copied (w : Window) (config : FrameBufferConfig) (pos : Vec) (area : Rectangle) (drawn : Bytewise) : Prop :=
  ∀ (a : Nat) v, (a, v) ∈ drawn ↔ ∃ x y, Visible config.screenSize pos w.size area x y ∧ ∃ k < 4,
    (a : Int) = 4 * (config.pixelsPerScanLine.toNat * y + x) + (k : Nat) ∧
      v = w.shadowBuffer.buffer ((w.shadowBuffer.offset (x - pos.x.toInt) (y - pos.y.toInt) % 4294967296).toNat + k)

/-- The first and the last column, or row, of the visible part, the last one excluded. -/
def visibleFrom (pos area : Int32) : Int := max 0 (max area.toInt pos.toInt)

def visibleTo (screen pos size areaPos areaSize : Int32) : Int :=
  min screen.toInt (min (areaPos.toInt + areaSize.toInt) (pos.toInt + size.toInt))

/-- The visible part is empty; or its rows have lengths that are `int`s, the shadow buffer reaches to the end of the last
one, and the last one starts in the first 4 GiB of the frame buffer. -/
def Drawable (w : Window) (config : FrameBufferConfig) (pos : Vec) (area : Rectangle) : Prop :=
  let x0 := visibleFrom pos.x area.pos.x
  let x1 := visibleTo config.screenSize.x pos.x w.width area.pos.x area.size.x
  let y0 := visibleFrom pos.y area.pos.y
  let y1 := visibleTo config.screenSize.y pos.y w.height area.pos.y area.size.y
  x1 ≤ x0 ∨ y1 ≤ y0 ∨
    (x1 - x0 < 536870912 ∧
      4 * (w.width.toInt * (y1 - 1 - pos.y.toInt) + (x1 - pos.x.toInt)) ≤ 4 * w.width.toInt * w.height.toInt % 4294967296 ∧
      4 * (config.pixelsPerScanLine.toNat * (y1 - 1) + x0) < 4294967296)

end Window

/-! ## Rows -/

section Rows

variable {b : ShadowBuffer} {config : FrameBufferConfig} {x len y : Int32} {src rows : Nat} {drawn : Bytewise}

/-- The step from a row of the shadow buffer to the next one. -/
abbrev line (b : ShadowBuffer) : Nat := (4 * b.pixelsPerScanLine).toNat

theorem copyLine_mem {pos : Vec} (h : config.copyLine b src pos len = some drawn) {a : Nat} {v : UInt8} :
    (a, v) ∈ drawn ↔ ∃ k < sizeT len, a = config.pixelAt pos + k ∧ v = b.buffer (src + k) := by
  unfold FrameBufferConfig.copyLine at h
  simp only at h
  split at h
  · cases h
    simp only [List.mem_map, List.mem_range, Prod.mk.injEq]
    exact ⟨fun ⟨k, hk, ha, hv⟩ => ⟨k, hk, ha.symm, hv.symm⟩, fun ⟨k, hk, ha, hv⟩ => ⟨k, hk, ha.symm, hv.symm⟩⟩
  · cases h

theorem copyLine_isSome {pos : Vec} : (config.copyLine b src pos len).isSome ↔ sizeT len = 0 ∨
    src + sizeT len ≤ b.length := by
  unfold FrameBufferConfig.copyLine
  by_cases hr : sizeT len = 0 ∨ src + sizeT len ≤ b.length
  · simp [hr]
  · simp [hr]

theorem row_succ (y : Int32) (j : Nat) : y + 1 + Int32.ofNat j = y + Int32.ofNat (j + 1) := by
  rw [Int32.ofNat_add, Int32.add_assoc, Int32.add_comm 1]
  rfl

theorem copyLines_isSome : ∀ {rows : Nat} {y : Int32} {src : Nat}, (b.copyLines config x len rows y src).isSome ↔
    ∀ j < rows, sizeT len = 0 ∨ src + line b * j + sizeT len ≤ b.length
  | 0, _, _ => iff_of_true rfl fun j hj => absurd hj (Nat.not_lt_zero j)
  | rows + 1, y, src => by
    have hstep : ∀ j, src + line b + line b * j = src + line b * (j + 1) := fun j => by rw [Nat.mul_succ]; omega
    have hfirst : (config.copyLine b src ⟨x, y⟩ len).isSome ↔ sizeT len = 0 ∨ src + sizeT len ≤ b.length := copyLine_isSome
    have ih : (b.copyLines config x len rows (y + 1) (src + line b)).isSome ↔
        ∀ j < rows, sizeT len = 0 ∨ src + line b + line b * j + sizeT len ≤ b.length := copyLines_isSome
    simp only [hstep] at ih
    rw [Nat.forall_lt_succ_left', Nat.mul_zero, Nat.add_zero src, ← ih, ← hfirst, ShadowBuffer.copyLines]
    cases config.copyLine b src ⟨x, y⟩ len with
    | none => simp
    | some ws => cases b.copyLines config x len rows (y + 1) (src + line b) <;> simp

theorem copyLines_mem : ∀ {rows : Nat} {y : Int32} {src : Nat} {drawn : Bytewise},
    b.copyLines config x len rows y src = some drawn → ∀ {a : Nat} {v : UInt8}, (a, v) ∈ drawn ↔
      ∃ j < rows, ∃ k < sizeT len, a = config.pixelAt ⟨x, y + Int32.ofNat j⟩ + k ∧ v = b.buffer (src + line b * j + k)
  | 0, _, _, _, h, _, _ => by
    cases h
    exact iff_of_false List.not_mem_nil fun ⟨j, hj, _⟩ => Nat.not_lt_zero j hj
  | rows + 1, y, src, drawn, h, a, v => by
    obtain ⟨ws, h1, h⟩ := Option.bind_eq_some_iff.1 h
    obtain ⟨rest, h2, h⟩ := Option.bind_eq_some_iff.1 h
    cases h
    have hstep : ∀ j, src + line b + line b * j = src + line b * (j + 1) := fun j => by rw [Nat.mul_succ]; omega
    rw [List.mem_append, copyLine_mem h1, copyLines_mem h2, Nat.exists_lt_succ_left]
    simp only [row_succ, hstep, Nat.mul_zero, Nat.add_zero]
    have hzero : y + Int32.ofNat 0 = y := Int32.add_zero y
    rw [hzero]

end Rows

/-! ## The area that is copied -/

namespace Window

open Rectangle

variable {w : Window} {config : FrameBufferConfig} {pos : Vec} {area : Rectangle} {drawn : Bytewise} {x y : Int}

/-- `copy_area` -/
def copyArea (w : Window) (config : FrameBufferConfig) (pos : Vec) (area : Rectangle) : Rectangle :=
  (inter ⟨⟨0, 0⟩, config.screenSize⟩ ⟨pos, w.size⟩).inter (area.inter ⟨pos, w.size⟩)

theorem drawTo_eq (ht : w.transparentColor = none) : w.drawTo config pos area =
    w.shadowBuffer.copyLines config (w.copyArea config pos area).pos.x (4 * (w.copyArea config pos area).size.x)
      (w.copyArea config pos area).size.y.toInt.toNat (w.copyArea config pos area).pos.y
      (w.shadowBuffer.shadowAddrAt ((w.copyArea config pos area).pos - pos)) := by
  have hsize : w.shadowBuffer.size = w.size := rfl
  simp only [drawTo, ht, ShadowBuffer.copyToFrameBuffer, sub_sub_cancel, hsize]
  rfl

theorem screen_toInt (config : FrameBufferConfig) :
    config.screenSize.x.toInt = config.horizontalResolution.toNat ∧
      config.screenSize.y.toInt = config.verticalResolution.toNat := by
  obtain ⟨hx, hy⟩ := config.sized
  simp only [FrameBufferConfig.screenSize, Int32.toInt_toInt32, if_pos hx, if_pos hy, and_self]

theorem frame_sized (config : FrameBufferConfig) : Sized ⟨⟨0, 0⟩, config.screenSize⟩ := by
  obtain ⟨hx, hy⟩ := screen_toInt config
  exact ⟨by rw [hx]; omega, by rw [hy]; omega⟩

theorem frame_fits (config : FrameBufferConfig) : Fits ⟨⟨0, 0⟩, config.screenSize⟩ := by
  have hx := config.screenSize.x.toInt_lt
  have hy := config.screenSize.y.toInt_lt
  simp only [Fits, Int32.toInt_zero]
  omega

theorem window_sized (w : Window) (pos : Vec) : Sized ⟨pos, w.size⟩ := w.sized_toInt

/-- The visible part is a rectangle. -/
theorem visible_iff : Visible config.screenSize pos w.size area x y ↔
    (visibleFrom pos.x area.pos.x ≤ x ∧ x < visibleTo config.screenSize.x pos.x w.width area.pos.x area.size.x) ∧
      visibleFrom pos.y area.pos.y ≤ y ∧ y < visibleTo config.screenSize.y pos.y w.height area.pos.y area.size.y := by
  simp only [Visible, visibleFrom, visibleTo, size, max_le_iff, lt_min_iff]
  constructor
  · rintro ⟨⟨⟨s1, s2⟩, s3, s4⟩, ⟨⟨a1, a2⟩, a3, a4⟩, ⟨w1, w2⟩, w3, w4⟩
    exact ⟨⟨⟨s1, a1, w1⟩, s2, a2, w2⟩, ⟨s3, a3, w3⟩, s4, a4, w4⟩
  · rintro ⟨⟨⟨s1, a1, w1⟩, s2, a2, w2⟩, ⟨s3, a3, w3⟩, s4, a4, w4⟩
    exact ⟨⟨⟨s1, s2⟩, s3, s4⟩, ⟨⟨a1, a2⟩, a3, a4⟩, ⟨w1, w2⟩, w3, w4⟩

theorem copyArea_sized (ha : area.Sized) : (w.copyArea config pos area).Sized :=
  inter_sized (inter_sized (frame_sized config) (w.window_sized pos)) (inter_sized ha (w.window_sized pos))

/-- The copied area, if something is visible. -/
theorem copyArea_pos (ha : area.Sized) (hfa : area.Fits) (hf : Fits ⟨pos, w.size⟩)
    (hv : Visible config.screenSize pos w.size area x y) :
    ((w.copyArea config pos area).pos.x.toInt = visibleFrom pos.x area.pos.x ∧
      (w.copyArea config pos area).pos.x.toInt + (w.copyArea config pos area).size.x.toInt =
        visibleTo config.screenSize.x pos.x w.width area.pos.x area.size.x) ∧
    (w.copyArea config pos area).pos.y.toInt = visibleFrom pos.y area.pos.y ∧
      (w.copyArea config pos area).pos.y.toInt + (w.copyArea config pos area).size.y.toInt =
        visibleTo config.screenSize.y pos.y w.height area.pos.y area.size.y := by
  have hfrom : ∀ p a : Int, max (max 0 p) (max a p) = max 0 (max a p) := fun p a => by omega
  have hto : ∀ s p a : Int, min (min s p) (min a p) = min s (min a p) := fun s p a => by omega
  have hsw := w.window_sized pos
  obtain ⟨⟨hsx, hsy⟩, ⟨hax, hay⟩, hwx, hwy⟩ := hv
  obtain ⟨⟨h1, h2, _⟩, h3, h4, _⟩ := inter_pos_of_le (frame_sized config) hsw (frame_fits config) hf
    (by simp only [Int32.toInt_zero]; omega) (by simp only [Int32.toInt_zero]; omega)
  obtain ⟨⟨h5, h6, _⟩, h7, h8, _⟩ := inter_pos_of_le ha hsw hfa hf (by simp only; omega) (by simp only; omega)
  simp only [Int32.toInt_zero, Int.zero_add] at h1 h2 h3 h4 h5 h6 h7 h8
  obtain ⟨⟨h9, h10, _⟩, h11, h12, _⟩ := inter_pos_of_le (inter_sized (frame_sized config) hsw) (inter_sized ha hsw)
    (inter_fits (frame_sized config) hsw) (inter_fits ha hsw) (by omega) (by omega)
  rw [h1, h5, hfrom] at h9
  rw [h2, h6, hto] at h10
  rw [h3, h7, hfrom] at h11
  rw [h4, h8, hto] at h12
  exact ⟨⟨h9, h10⟩, h11, h12⟩

/-- Nothing is visible, and nothing is drawn. -/
theorem exact_of_empty (ht : w.transparentColor = none) (ha : area.Sized)
    (he : ∀ x y, ¬ Visible config.screenSize pos w.size area x y) :
    ∃ drawn, w.drawTo config pos area = some drawn ∧ w.Exact config pos area drawn := by
  have hsized : (w.copyArea config pos area).Sized := copyArea_sized ha
  obtain ⟨hsx, hsy⟩ := hsized
  have hzero : (w.copyArea config pos area).size.y.toInt.toNat = 0 ∨
    sizeT (4 * (w.copyArea config pos area).size.x) = 0 := by
    by_contra hn
    obtain ⟨hy, hx⟩ := not_or.1 hn
    have hx0 : (w.copyArea config pos area).size.x ≠ 0 := fun h0 => hx (by rw [h0]; rfl)
    have hx1 := Int32.toInt_pos hsx hx0
    -- the first pixel of the area would be visible
    have hcov : (w.copyArea config pos area).Covers (w.copyArea config pos area).pos := ⟨by omega, by omega⟩
    obtain ⟨h1, h2⟩ := covers_of_inter (inter_sized (frame_sized config) (w.window_sized pos))
      (inter_sized ha (w.window_sized pos)) hcov
    obtain ⟨hf, hw⟩ := covers_of_inter (frame_sized config) (w.window_sized pos) h1
    obtain ⟨har, _⟩ := covers_of_inter ha (w.window_sized pos) h2
    refine he _ _ ⟨?_, har, hw⟩
    simpa only [Covers, Int32.toInt_zero, Int.zero_add] using hf
  rw [drawTo_eq ht]
  have hsome : (w.shadowBuffer.copyLines config (w.copyArea config pos area).pos.x (4 * (w.copyArea config pos area).size.x)
      (w.copyArea config pos area).size.y.toInt.toNat (w.copyArea config pos area).pos.y
      (w.shadowBuffer.shadowAddrAt ((w.copyArea config pos area).pos - pos))).isSome :=
    copyLines_isSome.2 fun j hj => hzero.elim (fun hr => absurd hj (by omega)) .inl
  obtain ⟨drawn, hd⟩ := Option.isSome_iff_exists.1 hsome
  refine ⟨drawn, hd, fun x y hv => absurd hv (he x y), fun a v => ?_⟩
  rw [copyLines_mem hd]
  constructor
  · rintro ⟨j, hj, k, hk, _⟩
    omega
  · rintro ⟨x, y, hv, _⟩
    exact absurd hv (he x y)

/-- The numbers of the visible part. -/
structure Bounds (w : Window) (config : FrameBufferConfig) (pos : Vec) (x0 x1 y0 y1 : Int) : Prop where
  x : x0 < x1 ∧ 0 ≤ x0 ∧ pos.x.toInt ≤ x0 ∧ x1 ≤ config.horizontalResolution.toNat ∧ x1 ≤ pos.x.toInt + w.width.toInt
  y : y0 < y1 ∧ 0 ≤ y0 ∧ pos.y.toInt ≤ y0 ∧ y1 ≤ config.verticalResolution.toNat ∧ y1 ≤ pos.y.toInt + w.height.toInt

/-- What is drawn, row by row. -/
structure RowsDrawn (w : Window) (config : FrameBufferConfig) (pos : Vec) (x0 x1 y0 y1 : Int) (r : Rectangle) : Prop where
  x : r.pos.x.toInt = x0 ∧ r.size.x.toInt = x1 - x0
  y : r.pos.y.toInt = y0 ∧ r.size.y.toInt.toNat = (y1 - y0).toNat

variable {x0 x1 y0 y1 : Int} {r : Rectangle}

theorem pixelAt_emod (config : FrameBufferConfig) {p : Vec} (hx : 0 ≤ p.x.toInt) (hy : 0 ≤ p.y.toInt) :
    (config.pixelAt p : Int) = 4 * (config.pixelsPerScanLine.toNat * p.y.toInt + p.x.toInt) % 4294967296 :=
  ShadowBuffer.addr_emod config.pixelsPerScanLine hx hy

/-- The start of a row on the screen. -/
theorem RowsDrawn.pixelAt (h : RowsDrawn w config pos x0 x1 y0 y1 r) (hb : Bounds w config pos x0 x1 y0 y1) {j : Nat}
    (hj : j < (y1 - y0).toNat) : (config.pixelAt ⟨r.pos.x, r.pos.y + Int32.ofNat j⟩ : Int) =
      4 * (config.pixelsPerScanLine.toNat * (y0 + j) + x0) % 4294967296 := by
  have hx := hb.x
  have hy := hb.y
  have hres := config.sized.2
  have hry := h.y.1
  have hrow : (r.pos.y + Int32.ofNat j).toInt = y0 + j := by
    rw [Int32.toInt_add_ofNat (by omega), hry]
  rw [pixelAt_emod config (by simp only; rw [h.x.1]; omega) (by simp only; rw [hrow]; omega)]
  simp only [hrow, h.x.1]

theorem line_emod (b : ShadowBuffer) : (line b : Int) = 4 * b.horizontalResolution.toNat % 4294967296 := by
  have h4 : (4 : UInt32).toNat = 4 := rfl
  rw [line, ShadowBuffer.pixelsPerScanLine, UInt32.toNat_mul, h4]
  norm_cast

/-- The visible rows lie in the shadow buffer, where the code looks for them. -/
def Within32 (w : Window) (pos : Vec) (x0 x1 y0 y1 : Int) : Prop :=
  w.shadowBuffer.offset (x0 - pos.x.toInt) (y0 - pos.y.toInt) % 4294967296 + line w.shadowBuffer * (y1 - 1 - y0) +
    4 * (x1 - x0) ≤ w.shadowBuffer.length

/-- The place of a pixel, from the start of the first row. -/
theorem Within32.source (h : w.Within32 pos x0 x1 y0 y1) {x y : Int} (hx : x0 ≤ x ∧ x < x1) (hy : y0 ≤ y ∧ y < y1) :
    w.shadowBuffer.offset (x - pos.x.toInt) (y - pos.y.toInt) % 4294967296 =
        w.shadowBuffer.offset (x0 - pos.x.toInt) (y0 - pos.y.toInt) % 4294967296 + line w.shadowBuffer * (y - y0) +
          4 * (x - x0) ∧
      w.shadowBuffer.offset (x - pos.x.toInt) (y - pos.y.toInt) % 4294967296 + 4 ≤ w.shadowBuffer.length := by
  have hlen := w.shadowBuffer.length_lt
  have hline := line_emod w.shadowBuffer
  have hle := Int.mul_le_mul_of_nonneg_left (show y - y0 ≤ y1 - 1 - y0 by omega) (Int.natCast_nonneg (line w.shadowBuffer))
  have hnn := Int.mul_nonneg (Int.natCast_nonneg (line w.shadowBuffer)) (show 0 ≤ y - y0 by omega)
  have hfirst := Int.emod_nonneg (w.shadowBuffer.offset (x0 - pos.x.toInt) (y0 - pos.y.toInt))
    (show (4294967296 : Int) ≠ 0 by decide)
  unfold Within32 at h
  -- both sides differ by a multiple of 2 ^ 32
  have hsplit : w.shadowBuffer.offset (x - pos.x.toInt) (y - pos.y.toInt) =
      w.shadowBuffer.offset (x0 - pos.x.toInt) (y0 - pos.y.toInt) % 4294967296 + line w.shadowBuffer * (y - y0) +
          4 * (x - x0) +
        4294967296 * (w.shadowBuffer.offset (x0 - pos.x.toInt) (y0 - pos.y.toInt) / 4294967296 +
          4 * w.shadowBuffer.horizontalResolution.toNat / 4294967296 * (y - y0)) := by
    have h1 := Int.emod_add_mul_ediv (w.shadowBuffer.offset (x0 - pos.x.toInt) (y0 - pos.y.toInt)) 4294967296
    have h2 := Int.emod_add_mul_ediv (4 * (w.shadowBuffer.horizontalResolution.toNat : Int)) 4294967296
    rw [← hline] at h2
    have hoff : w.shadowBuffer.offset (x - pos.x.toInt) (y - pos.y.toInt) =
        w.shadowBuffer.offset (x0 - pos.x.toInt) (y0 - pos.y.toInt) +
          4 * w.shadowBuffer.horizontalResolution.toNat * (y - y0) + 4 * (x - x0) := by
      unfold ShadowBuffer.offset
      ring
    rw [hoff]
    nth_rewrite 1 [← h1]
    nth_rewrite 1 [← h2]
    ring
  have heq : w.shadowBuffer.offset (x - pos.x.toInt) (y - pos.y.toInt) % 4294967296 =
      w.shadowBuffer.offset (x0 - pos.x.toInt) (y0 - pos.y.toInt) % 4294967296 + line w.shadowBuffer * (y - y0) +
        4 * (x - x0) := by
    rw [hsplit, Int.add_mul_emod_self_left]
    exact Int.emod_eq_of_lt (by omega) (by omega)
  exact ⟨heq, by omega⟩

/-- The start of the first row in the shadow buffer. -/
theorem RowsDrawn.source (h : RowsDrawn w config pos x0 x1 y0 y1 r) (hb : Bounds w config pos x0 x1 y0 y1) :
    (w.shadowBuffer.shadowAddrAt (r.pos - pos) : Int) =
      w.shadowBuffer.offset (x0 - pos.x.toInt) (y0 - pos.y.toInt) % 4294967296 := by
  have hbx := hb.x
  have hby := hb.y
  have hrx := h.x.1
  have hry := h.y.1
  have hlw := w.width.toInt_lt
  have hlh := w.height.toInt_lt
  have hsubx := Int32.toInt_sub_cases r.pos.x pos.x
  have hsuby := Int32.toInt_sub_cases r.pos.y pos.y
  have hcol : (r.pos - pos).x.toInt = x0 - pos.x.toInt := by
    rw [Vec.sub_x]
    omega
  have hrow : (r.pos - pos).y.toInt = y0 - pos.y.toInt := by
    rw [Vec.sub_y]
    omega
  refine (ShadowBuffer.addr_emod w.shadowBuffer.horizontalResolution (by rw [hcol]; omega) (by rw [hrow]; omega)).trans ?_
  rw [hcol, hrow]
  rfl

/-- The rows of the visible part, when they lie in both buffers. -/
theorem RowsDrawn.copied (h : RowsDrawn w config pos x0 x1 y0 y1 r) (hb : Bounds w config pos x0 x1 y0 y1)
    (hv : ∀ x y, Visible config.screenSize pos w.size area x y ↔ (x0 ≤ x ∧ x < x1) ∧ y0 ≤ y ∧ y < y1)
    (hn : x1 - x0 < 536870912) (hw : w.Within32 pos x0 x1 y0 y1)
    (hs : 4 * (config.pixelsPerScanLine.toNat * (y1 - 1) + x0) < 4294967296) :
    ∃ drawn, w.shadowBuffer.copyLines config r.pos.x (4 * r.size.x) r.size.y.toInt.toNat r.pos.y
        (w.shadowBuffer.shadowAddrAt (r.pos - pos)) = some drawn ∧ w.Copied config pos area drawn := by
  have hbx := hb.x
  have hby := hb.y
  have hstart := h.source hb
  have hlen : (sizeT (4 * r.size.x) : Int) = 4 * (x1 - x0) := by
    rw [ShadowBuffer.sizeT_eq (by rw [h.x.2]; omega) (by rw [h.x.2]; exact hn), h.x.2]
  have haddr : ∀ j < (y1 - y0).toNat, (config.pixelAt ⟨r.pos.x, r.pos.y + Int32.ofNat j⟩ : Int) =
      4 * (config.pixelsPerScanLine.toNat * (y0 + j) + x0) := by
    intro j hj
    have hle : y0 + j ≤ y1 - 1 := by omega
    have hmono := Int.mul_le_mul_of_nonneg_left hle (Int.natCast_nonneg config.pixelsPerScanLine.toNat)
    have hnn := Int.mul_nonneg (Int.natCast_nonneg config.pixelsPerScanLine.toNat) (by omega : 0 ≤ y0 + (j : Int))
    rw [h.pixelAt hb hj]
    exact Int.emod_eq_of_lt (by omega) (by omega)
  have hsrc : ∀ {x : Int} (j : Nat), x0 ≤ x ∧ x < x1 → j < (y1 - y0).toNat →
      w.shadowBuffer.offset (x - pos.x.toInt) (y0 + j - pos.y.toInt) % 4294967296 =
          (w.shadowBuffer.shadowAddrAt (r.pos - pos) + line w.shadowBuffer * j : Nat) + 4 * (x - x0) ∧
        w.shadowBuffer.offset (x - pos.x.toInt) (y0 + j - pos.y.toInt) % 4294967296 + 4 ≤ w.shadowBuffer.length := by
    intro x j hx hj
    obtain ⟨heq, hle⟩ := hw.source hx (y := y0 + j) ⟨by omega, by omega⟩
    rw [show y0 + (j : Int) - y0 = j by omega] at heq
    push_cast
    exact ⟨by rw [heq, hstart], hle⟩
  have hall : ∀ j < r.size.y.toInt.toNat, sizeT (4 * r.size.x) = 0 ∨
      w.shadowBuffer.shadowAddrAt (r.pos - pos) + line w.shadowBuffer * j + sizeT (4 * r.size.x) ≤
        w.shadowBuffer.length := by
    intro j hj
    rw [h.y.2] at hj
    obtain ⟨heq, hle⟩ := hsrc (x := x1 - 1) j ⟨by omega, by omega⟩ hj
    omega
  obtain ⟨drawn, hd⟩ := Option.isSome_iff_exists.1 (copyLines_isSome.2 hall)
  refine ⟨drawn, hd, fun a v => ?_⟩
  rw [copyLines_mem hd, h.y.2]
  constructor
  · rintro ⟨j, hj, k, hk, ha, rfl⟩
    have ha' := haddr j hj
    obtain ⟨heq, -⟩ := hsrc (x := x0 + (k / 4 : Nat)) j ⟨by omega, by omega⟩ hj
    refine ⟨x0 + (k / 4 : Nat), y0 + j, (hv _ _).2 ⟨by omega, by omega⟩, k % 4, by omega, by omega, ?_⟩
    refine congrArg w.shadowBuffer.buffer ?_
    omega
  · rintro ⟨x, y, hxy, k, hk, ha, rfl⟩
    obtain ⟨hx, hy⟩ := (hv x y).1 hxy
    have hj : (y - y0).toNat < (y1 - y0).toNat := by omega
    have hyj : y0 + ((y - y0).toNat : Int) = y := by omega
    have ha' := haddr _ hj
    obtain ⟨heq, -⟩ := hsrc (y - y0).toNat hx hj
    rw [hyj] at ha' heq
    refine ⟨(y - y0).toNat, hj, 4 * (x - x0).toNat + k, by omega, by omega, ?_⟩
    refine congrArg w.shadowBuffer.buffer ?_
    omega

/-- A pixel's place in the shadow buffer, in numbers. -/
theorem offset_last_le (hb : Bounds w config pos x0 x1 y0 y1)
    (hl : 4 * (w.width.toInt * (y1 - 1 - pos.y.toInt) + (x1 - pos.x.toInt)) ≤ w.shadowBuffer.length) {x y : Int}
    (hx : x0 ≤ x ∧ x < x1) (hy : y0 ≤ y ∧ y < y1) : 0 ≤ w.shadowBuffer.offset (x - pos.x.toInt) (y - pos.y.toInt) ∧
      w.shadowBuffer.offset (x - pos.x.toInt) (y - pos.y.toInt) + 4 ≤ w.shadowBuffer.length := by
  have hbx := hb.x
  have hby := hb.y
  have hle : y - pos.y.toInt ≤ y1 - 1 - pos.y.toInt := by omega
  have hmono := Int.mul_le_mul_of_nonneg_left hle w.sized_toInt.1
  have hnn := Int.mul_nonneg w.sized_toInt.1 (by omega : 0 ≤ y - pos.y.toInt)
  rw [ShadowBuffer.offset, width_toNat]
  omega

/-- A buffer that reaches to the last visible row holds the others. -/
theorem within32_of_last (hb : Bounds w config pos x0 x1 y0 y1)
    (hl : 4 * (w.width.toInt * (y1 - 1 - pos.y.toInt) + (x1 - pos.x.toInt)) ≤ w.shadowBuffer.length) :
    w.Within32 pos x0 x1 y0 y1 := by
  have hbx := hb.x
  have hby := hb.y
  have hlen := w.shadowBuffer.length_lt
  obtain ⟨h0, hend⟩ := offset_last_le hb hl (x := x0) (y := y0) ⟨Int.le_refl _, hbx.1⟩ ⟨Int.le_refl _, hby.1⟩
  have hline : (line w.shadowBuffer : Int) ≤ 4 * w.width.toInt := by
    have hw := w.sized_toInt.1
    rw [line_emod, width_toNat]
    omega
  have hmono := Int.mul_le_mul_of_nonneg_right hline (show 0 ≤ y1 - 1 - y0 by omega)
  have hsplit : w.width.toInt * (y1 - 1 - pos.y.toInt) =
      w.width.toInt * (y0 - pos.y.toInt) + w.width.toInt * (y1 - 1 - y0) := by ring
  rw [Int.mul_assoc] at hmono
  rw [Within32, Int.emod_eq_of_lt h0 (by omega), ShadowBuffer.offset, width_toNat]
  omega

/-- The rows of the visible part, when it is drawn as it should be. -/
theorem RowsDrawn.exact (h : RowsDrawn w config pos x0 x1 y0 y1 r) (hb : Bounds w config pos x0 x1 y0 y1)
    (hv : ∀ x y, Visible config.screenSize pos w.size area x y ↔ (x0 ≤ x ∧ x < x1) ∧ y0 ≤ y ∧ y < y1)
    (hn : x1 - x0 < 536870912)
    (hl : 4 * (w.width.toInt * (y1 - 1 - pos.y.toInt) + (x1 - pos.x.toInt)) ≤ w.shadowBuffer.length)
    (hs : 4 * (config.pixelsPerScanLine.toNat * (y1 - 1) + x0) < 4294967296) :
    ∃ drawn, w.shadowBuffer.copyLines config r.pos.x (4 * r.size.x) r.size.y.toInt.toNat r.pos.y
        (w.shadowBuffer.shadowAddrAt (r.pos - pos)) = some drawn ∧ w.Exact config pos area drawn := by
  obtain ⟨drawn, hd, hcopied⟩ := h.copied hb hv hn (within32_of_last hb hl) hs
  have hlen := w.shadowBuffer.length_lt
  have hoff : ∀ x y, Visible config.screenSize pos w.size area x y →
      0 ≤ w.shadowBuffer.offset (x - pos.x.toInt) (y - pos.y.toInt) ∧
        w.shadowBuffer.offset (x - pos.x.toInt) (y - pos.y.toInt) + 4 ≤ w.shadowBuffer.length := fun x y hxy =>
    offset_last_le hb hl ((hv x y).1 hxy).1 ((hv x y).1 hxy).2
  refine ⟨drawn, hd, fun x y hxy => (hoff x y hxy).2, fun a v => (hcopied a v).trans ?_⟩
  -- below 4 GiB the places are those that are meant
  refine exists_congr fun x => exists_congr fun y => and_congr_right fun hxy => ?_
  have hmod := Int.emod_eq_of_lt (hoff x y hxy).1 (show _ < 4294967296 by have := (hoff x y hxy).2; omega)
  simp only [hmod, ShadowBuffer.byteAt]

/-- What has been drawn as it should be has been drawn within these limits. -/
theorem RowsDrawn.limits (h : RowsDrawn w config pos x0 x1 y0 y1 r) (hb : Bounds w config pos x0 x1 y0 y1)
    (hv : ∀ x y, Visible config.screenSize pos w.size area x y ↔ (x0 ≤ x ∧ x < x1) ∧ y0 ≤ y ∧ y < y1)
    (hd : w.shadowBuffer.copyLines config r.pos.x (4 * r.size.x) r.size.y.toInt.toNat r.pos.y
        (w.shadowBuffer.shadowAddrAt (r.pos - pos)) = some drawn) (he : w.Exact config pos area drawn) :
    x1 - x0 < 536870912 ∧
      4 * (w.width.toInt * (y1 - 1 - pos.y.toInt) + (x1 - pos.x.toInt)) ≤ w.shadowBuffer.length ∧
      4 * (config.pixelsPerScanLine.toNat * (y1 - 1) + x0) < 4294967296 := by
  have hbx := hb.x
  have hby := hb.y
  have hlen := w.shadowBuffer.length_lt
  have hlast := he.reads (x1 - 1) (y1 - 1) ((hv _ _).2 ⟨by omega, by omega⟩)
  rw [ShadowBuffer.offset, width_toNat] at hlast
  have hnn := Int.mul_nonneg w.sized_toInt.1 (by omega : 0 ≤ y1 - 1 - pos.y.toInt)
  have hn : x1 - x0 < 536870912 := by
    by_contra hn
    have hbig := ShadowBuffer.sizeT_wide (a := r.size.x) (by rw [h.x.2]; omega) (by rw [h.x.2]; omega)
    have hrow := copyLines_isSome.1 (by rw [hd]; rfl) 0 (by rw [h.y.2]; omega)
    omega
  refine ⟨hn, by omega, ?_⟩
  by_contra hs
  have hlen4 : (sizeT (4 * r.size.x) : Int) = 4 * (x1 - x0) := by
    rw [ShadowBuffer.sizeT_eq (by rw [h.x.2]; omega) (by rw [h.x.2]; exact hn), h.x.2]
  -- the first byte of the last row is not among those that are written
  have hmem := (he.writes (4 * (config.pixelsPerScanLine.toNat * (y1 - 1) + x0)).toNat _).2
    ⟨x0, y1 - 1, (hv _ _).2 ⟨by omega, by omega⟩, 0, by decide, by omega, rfl⟩
  obtain ⟨j, hj, k, hk, ha, _⟩ := (copyLines_mem hd).1 hmem
  rw [h.y.2] at hj
  have haddr := h.pixelAt hb hj
  have hwide := config.wide
  have hdist : y0 + (j : Int) = y1 - 1 ∨ y0 + (j : Int) + 1 ≤ y1 - 1 := by omega
  rcases hdist with hlastrow | hrow
  · rw [hlastrow] at haddr
    omega
  · have hmono := Int.mul_le_mul_of_nonneg_left hrow (Int.natCast_nonneg config.pixelsPerScanLine.toNat)
    rw [Int.mul_add, Int.mul_one] at hmono
    have hnn' := Int.mul_nonneg (Int.natCast_nonneg config.pixelsPerScanLine.toNat) (by omega : 0 ≤ y0 + (j : Int))
    omega

theorem visibleTo_le (screen pos size areaPos areaSize : Int32) : visibleTo screen pos size areaPos areaSize ≤ screen.toInt ∧
    visibleTo screen pos size areaPos areaSize ≤ pos.toInt + size.toInt := by
  unfold visibleTo
  omega

theorem le_visibleFrom (pos area : Int32) : 0 ≤ visibleFrom pos area ∧ pos.toInt ≤ visibleFrom pos area := by
  unfold visibleFrom
  omega

/-- The visible part, if it is not empty, is what `CopyToFrameBuffer` copies. -/
theorem rowsDrawn_of_nonempty (ha : area.Sized) (hfa : area.Fits) (hf : Fits ⟨pos, w.size⟩)
    (hx : visibleFrom pos.x area.pos.x < visibleTo config.screenSize.x pos.x w.width area.pos.x area.size.x)
    (hy : visibleFrom pos.y area.pos.y < visibleTo config.screenSize.y pos.y w.height area.pos.y area.size.y) :
    Bounds w config pos (visibleFrom pos.x area.pos.x)
        (visibleTo config.screenSize.x pos.x w.width area.pos.x area.size.x) (visibleFrom pos.y area.pos.y)
        (visibleTo config.screenSize.y pos.y w.height area.pos.y area.size.y) ∧
      RowsDrawn w config pos (visibleFrom pos.x area.pos.x)
        (visibleTo config.screenSize.x pos.x w.width area.pos.x area.size.x) (visibleFrom pos.y area.pos.y)
        (visibleTo config.screenSize.y pos.y w.height area.pos.y area.size.y) (w.copyArea config pos area) := by
  obtain ⟨hsx, hsy⟩ := screen_toInt config
  obtain ⟨hlx, hlx'⟩ := visibleTo_le config.screenSize.x pos.x w.width area.pos.x area.size.x
  obtain ⟨hly, hly'⟩ := visibleTo_le config.screenSize.y pos.y w.height area.pos.y area.size.y
  obtain ⟨hfx, hfx'⟩ := le_visibleFrom pos.x area.pos.x
  obtain ⟨hfy, hfy'⟩ := le_visibleFrom pos.y area.pos.y
  obtain ⟨⟨hrx, hrx'⟩, hry, hry'⟩ := copyArea_pos ha hfa hf
    (visible_iff.2 ⟨⟨Int.le_refl _, hx⟩, Int.le_refl _, hy⟩)
  exact ⟨⟨by omega, by omega⟩, ⟨hrx, by omega⟩, hry, by omega⟩

theorem within32_iff : w.Within32 pos x0 x1 y0 y1 ↔
    4 * (w.width.toInt * (y0 - pos.y.toInt) + (x0 - pos.x.toInt)) % 4294967296 +
        4 * w.width.toInt % 4294967296 * (y1 - 1 - y0) + 4 * (x1 - x0) ≤
      4 * w.width.toInt * w.height.toInt % 4294967296 := by
  rw [Within32, line_emod, ShadowBuffer.offset, width_toNat, length_eq]

/-- The last pixel of the visible part. -/
theorem exists_last (hx : visibleFrom pos.x area.pos.x < visibleTo config.screenSize.x pos.x w.width area.pos.x area.size.x)
    (hy : visibleFrom pos.y area.pos.y < visibleTo config.screenSize.y pos.y w.height area.pos.y area.size.y) :
    ∃ p : Vec, p.x.toInt = visibleTo config.screenSize.x pos.x w.width area.pos.x area.size.x - 1 ∧
      p.y.toInt = visibleTo config.screenSize.y pos.y w.height area.pos.y area.size.y - 1 := by
  have hlx := (visibleTo_le config.screenSize.x pos.x w.width area.pos.x area.size.x).1
  have hly := (visibleTo_le config.screenSize.y pos.y w.height area.pos.y area.size.y).1
  have hfx := (le_visibleFrom pos.x area.pos.x).1
  have hfy := (le_visibleFrom pos.y area.pos.y).1
  have hsx := config.screenSize.x.toInt_lt
  have hsy := config.screenSize.y.toInt_lt
  exact ⟨⟨Int32.ofInt _, Int32.ofInt _⟩, Int32.toInt_ofInt_of_le (by omega) (by omega),
    Int32.toInt_ofInt_of_le (by omega) (by omega)⟩

/-- **A window without a transparent colour is drawn exactly as it should be if its visible part is empty, or within the
limits of the offsets.** -/
theorem drawTo_exact_iff (ht : w.transparentColor = none) (ha : area.Sized) (hfa : area.Fits) (hf : Fits ⟨pos, w.size⟩) :
    (∃ drawn, w.drawTo config pos area = some drawn ∧ w.Exact config pos area drawn) ↔ w.Drawable config pos area := by
  unfold Drawable
  simp only [← length_eq]
  by_cases hx : visibleFrom pos.x area.pos.x < visibleTo config.screenSize.x pos.x w.width area.pos.x area.size.x
  swap
  · exact iff_of_true (exact_of_empty ht ha fun x y hxy => hx (by have := (visible_iff.1 hxy).1; omega))
      (.inl (not_lt.1 hx))
  by_cases hy : visibleFrom pos.y area.pos.y < visibleTo config.screenSize.y pos.y w.height area.pos.y area.size.y
  swap
  · exact iff_of_true (exact_of_empty ht ha fun x y hxy => hy (by have := (visible_iff.1 hxy).2; omega))
      (.inr (.inl (not_lt.1 hy)))
  obtain ⟨hb, hr⟩ := rowsDrawn_of_nonempty ha hfa hf hx hy
  have hv : ∀ x y, Visible config.screenSize pos w.size area x y ↔ _ := fun x y => visible_iff
  rw [drawTo_eq ht]
  refine ⟨fun ⟨drawn, hd, he⟩ => .inr (.inr (hr.limits hb hv hd he)), fun hdr => ?_⟩
  obtain ⟨hn, hl, hs⟩ := (hdr.resolve_left (not_le.2 hx)).resolve_left (not_le.2 hy)
  exact hr.exact hb hv hn hl hs

/-- A screen of 1024 x 768 pixels. -/
def xga (format : PixelFormat) : FrameBufferConfig := ⟨1024, 1024, 768, format, ⟨by decide, by decide⟩, by decide⟩

/-- A window that hangs over the upper left corner of the screen. -/
theorem drawTo_exact_corner : ∃ drawn,
    (blank 3 2 (by decide)).drawTo (xga .bgrResv8BitPerColor) ⟨-1, -1⟩ ⟨⟨0, 0⟩, ⟨1024, 768⟩⟩ = some drawn ∧
      (blank 3 2 (by decide)).Exact (xga .bgrResv8BitPerColor) ⟨-1, -1⟩ ⟨⟨0, 0⟩, ⟨1024, 768⟩⟩ drawn :=
  (drawTo_exact_iff rfl ⟨by decide, by decide⟩ ⟨by decide, by decide⟩ ⟨by decide, by decide⟩).2 (by unfold Drawable; decide)

/-- The shadow buffer of a window of 32768 x 32768 pixels has no bytes. -/
theorem drawTo_large : ¬ ∀ (w : Window) (config : FrameBufferConfig) (pos : Vec) (area : Rectangle),
    w.transparentColor = none → area.Sized → area.Fits → Fits ⟨pos, w.size⟩ →
    ∃ drawn, w.drawTo config pos area = some drawn ∧ w.Exact config pos area drawn := by
  intro h
  obtain ⟨drawn, hd, _⟩ := h (blank 32768 32768 (by decide)) (xga .bgrResv8BitPerColor) ⟨0, 0⟩ ⟨⟨0, 0⟩, ⟨1, 1⟩⟩ rfl
    ⟨by decide, by decide⟩ ⟨by decide, by decide⟩ ⟨by decide, by decide⟩
  have hsome : ((blank 32768 32768 (by decide)).drawTo (xga .bgrResv8BitPerColor) ⟨0, 0⟩ ⟨⟨0, 0⟩, ⟨1, 1⟩⟩).isSome =
    true := by
    rw [hd]
    rfl
  revert hsome
  decide

end Window

end KinOS.Gui
