import KinOS.Gui.Clipping
import KinOS.Lib.RowCopy

/-!
# The shadow buffer of a window

| here | there |
| --- | --- |
| `ShadowBuffer`, `initialized`  | `ShadowBuffer`, `Initialize` (`servers/gui/shadow_buffer.cpp:24-34`) |
| `shadowAddrAt`, `bytesPerScanLine` | the functions of these names (`shadow_buffer.cpp:9-17`) |
| `move`                         | `ShadowBuffer::Move` (`shadow_buffer.cpp:62-84`) |
| `writePixel`                   | `ShadowBufferWriter::Write` (`graphics.cpp:26-31`) |

A pixel is four bytes, blue, green, red and one that is not used. Offsets and the length of `buffer_` are computed in
`unsigned int`, a length in bytes and the step from a row to the next one in `int`; `memcpy` takes a `size_t`. `none` is a
`memcpy` that leaves the buffer or whose ranges overlap, or a pixel written outside the buffer.
-/

namespace KinOS.Gui

open Bytes

/-- `config_` and `buffer_`. `Initialize` makes `pixels_per_scan_line` the horizontal resolution, and the length of `buffer_`
never changes. -/
structure ShadowBuffer where
  horizontalResolution : UInt32
  verticalResolution : UInt32
  buffer : Mem

/-- An `int` as a `size_t`. -/
def sizeT (n : Int32) : Nat := (UInt64.ofInt n.toInt).toNat

namespace ShadowBuffer

def initialized (width height : UInt32) : ShadowBuffer := ⟨width, height, fun _ => 0⟩

def pixelsPerScanLine (b : ShadowBuffer) : UInt32 := b.horizontalResolution

/-- `buffer_.size()` -/
def length (b : ShadowBuffer) : Nat := (4 * b.horizontalResolution * b.verticalResolution).toNat

/-- The offset of a pixel. -/
def shadowAddrAt (b : ShadowBuffer) (pos : Vec) : Nat :=
  (4 * (b.pixelsPerScanLine * pos.y.toUInt32 + pos.x.toUInt32)).toNat

def bytesPerScanLine (b : ShadowBuffer) : Int := (4 * b.pixelsPerScanLine).toInt32.toInt

def move (b : ShadowBuffer) (dstPos : Vec) (src : Rectangle) : Option ShadowBuffer :=
  let n := sizeT (4 * src.size.x)
  let rows := src.size.y.toInt.toNat
  let moved :=
    if dstPos.y < src.pos.y then
      copyRows b.length n b.bytesPerScanLine rows (b.shadowAddrAt dstPos) (b.shadowAddrAt src.pos) b.buffer
    else
      copyRows b.length n (-b.bytesPerScanLine) rows (b.shadowAddrAt (dstPos + ⟨0, src.size.y - 1⟩))
        (b.shadowAddrAt (src.pos + ⟨0, src.size.y - 1⟩)) b.buffer
  moved.map fun buffer => { b with buffer := buffer }

def writePixel (b : ShadowBuffer) (pos : Vec) (c : PixelColor) : Option ShadowBuffer :=
  let p := b.shadowAddrAt pos
  if p + 3 ≤ b.length then
    some { b with buffer := fun i => if i = p then c.b else if i = p + 1 then c.g else if i = p +
      2 then c.r else b.buffer i }
  else none

/-! ## Pixels -/

/-- Where the pixels of a row and of a column are, in numbers. -/
def offset (b : ShadowBuffer) (x y : Int) : Int := 4 * (b.horizontalResolution.toNat * y + x)

/-- The bytes of a pixel. -/
def byteAt (b : ShadowBuffer) (x y : Int) (k : Nat) : UInt8 := b.buffer ((b.offset x y).toNat + k)

/-- The colour of a pixel, if its bytes are in the buffer. -/
def colorAt (b : ShadowBuffer) (x y : Int) : Option PixelColor :=
  if b.offset x y + 4 ≤ b.length then some ⟨b.byteAt x y 2, b.byteAt x y 1, b.byteAt x y 0⟩ else none

/-- The rectangle lies in the buffer, with all its bytes. -/
structure Holds (b : ShadowBuffer) (r : Rectangle) : Prop where
  x : 0 ≤ r.pos.x.toInt ∧ 0 ≤ r.size.x.toInt ∧ r.pos.x.toInt + r.size.x.toInt ≤ b.horizontalResolution.toNat
  y : 0 ≤ r.pos.y.toInt ∧ 0 ≤ r.size.y.toInt ∧ r.pos.y.toInt + r.size.y.toInt ≤ b.verticalResolution.toNat
  bytes : 0 < r.size.x.toInt → 0 < r.size.y.toInt →
    b.offset (r.pos.x.toInt + r.size.x.toInt) (r.pos.y.toInt + r.size.y.toInt - 1) ≤ b.length

/-- Each pixel of the destination is what its source was, and the others are as they were. -/
structure Moved (b : ShadowBuffer) (dst : Vec) (src : Rectangle) (b' : ShadowBuffer) : Prop where
  width : b'.horizontalResolution = b.horizontalResolution
  height : b'.verticalResolution = b.verticalResolution
  inside : ∀ x y : Int, 0 ≤ x ∧ x < src.size.x.toInt → 0 ≤ y ∧ y < src.size.y.toInt → ∀ k < 4,
    b'.byteAt (dst.x.toInt + x) (dst.y.toInt + y) k = b.byteAt (src.pos.x.toInt + x) (src.pos.y.toInt + y) k
  outside : ∀ x y : Int, 0 ≤ x ∧ x < b.horizontalResolution.toNat → 0 ≤ y ∧ y < b.verticalResolution.toNat →
    ¬ ((dst.x.toInt ≤ x ∧ x < dst.x.toInt + src.size.x.toInt) ∧ dst.y.toInt ≤ y ∧ y < dst.y.toInt + src.size.y.toInt) →
    ∀ k < 4, b'.byteAt x y k = b.byteAt x y k

/-- The lengths are `int`s, and no row overlaps the row it is copied to. -/
def Movable (b : ShadowBuffer) (dst : Vec) (src : Rectangle) : Prop :=
  src.size.x = 0 ∨ src.size.y = 0 ∨
    (src.size.x.toInt < 536870912 ∧ (src.size.y = 1 ∨ b.horizontalResolution.toNat < 536870912)) ∧
      (dst.y = src.pos.y → src.size.x.toInt ≤ |dst.x.toInt - src.pos.x.toInt|)

variable {b : ShadowBuffer} {dst pos : Vec} {src : Rectangle} {x y x' y' s : Int}

/-! ## Offsets -/

theorem offset_add_line (b : ShadowBuffer) (x y j : Int) : b.offset x (y + j) = b.offset x y +
    4 * b.horizontalResolution.toNat * j := by
  unfold offset
  ring

theorem offset_mono (b : ShadowBuffer) (hy : y ≤ y') : b.offset x y ≤ b.offset x y' := by
  have := Int.mul_le_mul_of_nonneg_left hy (Int.natCast_nonneg b.horizontalResolution.toNat)
  unfold offset
  omega

/-- A part of a row ends before the next row begins. -/
theorem offset_lt (hy : y < y') (hx : x + s ≤ b.horizontalResolution.toNat) (hx' : 0 ≤ x') :
    b.offset x y + 4 * s ≤ b.offset x' y' := by
  have h := Int.mul_le_mul_of_nonneg_left (Int.add_one_le_of_lt hy) (Int.natCast_nonneg b.horizontalResolution.toNat)
  rw [Int.mul_add, Int.mul_one] at h
  unfold offset
  omega

/-- The offset of a pixel, computed in an `unsigned int`. -/
theorem addr_emod (u : UInt32) (hx : 0 ≤ pos.x.toInt) (hy : 0 ≤ pos.y.toInt) :
    ((4 * (u * pos.y.toUInt32 + pos.x.toUInt32)).toNat : Int) = 4 * (u.toNat * pos.y.toInt + pos.x.toInt) % 4294967296 := by
  rw [← Int32.toNat_toUInt32 hx, ← Int32.toNat_toUInt32 hy]
  norm_cast
  have h4 : (4 : UInt32).toNat = 4 := rfl
  simp only [UInt32.toNat_mul, UInt32.toNat_add, h4]
  generalize u.toNat * pos.y.toUInt32.toNat = line
  omega

/-- Offsets in the first 4 GiB are computed as they are. -/
theorem shadowAddrAt_eq (hx : 0 ≤ pos.x.toInt) (hy : 0 ≤ pos.y.toInt) (h : b.offset pos.x.toInt pos.y.toInt < 4294967296) :
    (b.shadowAddrAt pos : Int) = b.offset pos.x.toInt pos.y.toInt := by
  have hnn := Int.mul_nonneg (Int.natCast_nonneg b.horizontalResolution.toNat) hy
  refine (addr_emod b.horizontalResolution hx hy).trans (Int.emod_eq_of_lt ?_ h)
  omega

theorem toNat_four_mul {u : UInt32} (h : u.toNat < 1073741824) : (4 * u).toNat = 4 * u.toNat := by
  rw [UInt32.toNat_mul, show (4 : UInt32).toNat = 4 from rfl]
  omega

theorem bytesPerScanLine_eq (h : b.horizontalResolution.toNat < 536870912) :
    b.bytesPerScanLine = 4 * b.horizontalResolution.toNat := by
  rw [bytesPerScanLine, pixelsPerScanLine, Int32.toInt_toInt32, toNat_four_mul (by omega), if_pos (by omega)]
  rfl

/-- The next row, `4 GiB` too early. -/
theorem bytesPerScanLine_wide (h1 : 536870912 ≤ b.horizontalResolution.toNat)
    (h2 : b.horizontalResolution.toNat < 1073741824) :
    b.bytesPerScanLine = 4 * b.horizontalResolution.toNat - 4294967296 := by
  rw [bytesPerScanLine, pixelsPerScanLine, Int32.toInt_toInt32, toNat_four_mul h2, if_neg (by omega)]
  rfl

theorem sizeT_eq {a : Int32} (h0 : 0 ≤ a.toInt) (h : a.toInt < 536870912) : (sizeT (4 * a) : Int) = 4 * a.toInt := by
  have hmul : (4 * a).toInt = 4 * a.toInt := by
    rw [Int32.toInt_mul, show (4 : Int32).toInt = 4 from rfl, Int.bmod_def]
    omega
  rw [sizeT, hmul, UInt64.ofInt, UInt64.toNat_ofNat']
  omega

/-- The length is negative, and `memcpy` takes it for a large one. -/
theorem sizeT_wide {a : Int32} (h1 : 536870912 ≤ a.toInt) (h2 : a.toInt < 1073741824) :
    9223372036854775808 ≤ sizeT (4 * a) := by
  have hmul : (4 * a).toInt = 4 * a.toInt - 4294967296 := by
    rw [Int32.toInt_mul, show (4 : Int32).toInt = 4 from rfl, Int.bmod_def]
    omega
  rw [sizeT, hmul, UInt64.ofInt, UInt64.toNat_ofNat']
  omega

theorem length_lt (b : ShadowBuffer) : (b.length : Int) < 4294967296 := by
  have := (4 * b.horizontalResolution * b.verticalResolution).toNat_lt
  unfold length
  omega

/-! ## Rows of a rectangle -/

theorem Holds.row (h : b.Holds src) (hx : 0 < src.size.x.toInt) (hy : 0 ≤ y ∧ y < src.size.y.toInt) :
    0 ≤ b.offset src.pos.x.toInt (src.pos.y.toInt + y) ∧
      b.offset src.pos.x.toInt (src.pos.y.toInt + y) + 4 * src.size.x.toInt ≤ b.length := by
  obtain ⟨hx0, _, _⟩ := h.x
  obtain ⟨hy0, _, _⟩ := h.y
  have hlast := h.bytes hx (by omega)
  have hle : src.pos.y.toInt + y ≤ src.pos.y.toInt + src.size.y.toInt - 1 := by omega
  have hmono := b.offset_mono (x := src.pos.x.toInt + src.size.x.toInt) hle
  have hline := Int.mul_nonneg (Int.natCast_nonneg b.horizontalResolution.toNat) (by omega : 0 ≤ src.pos.y.toInt + y)
  unfold offset at *
  omega

theorem Holds.wide (h : b.Holds src) (hx : 0 < src.size.x.toInt) (hy : 0 < src.size.y.toInt) :
    src.size.x.toInt < 1073741824 := by
  have hrow := h.row hx (y := 0) ⟨Int.le_refl 0, hy⟩
  have hlen := b.length_lt
  omega

theorem rows_apart {n : Nat} (hn : (n : Int) = 4 * s) (hx : 0 ≤ x ∧ x + s ≤ b.horizontalResolution.toNat)
    (hx' : 0 ≤ x' ∧ x' + s ≤ b.horizontalResolution.toNat) (h : y ≠ y' ∨ x + s ≤ x' ∨ x' + s ≤ x) :
    Apart n (b.offset x y) (b.offset x' y') := by
  unfold Apart
  rw [hn]
  rcases Int.lt_trichotomy y y' with hlt | rfl | hlt
  · exact .inl (offset_lt hlt hx.2 hx'.1)
  · unfold offset
    omega
  · exact .inr (offset_lt hlt hx'.2 hx.1)

/-- The rows of a rectangle, in the order `line` and one by one, are moved if none is overwritten before it is copied. -/
theorem moved_of_lines (hs : b.Holds src) (hd : b.Holds ⟨dst, src.size⟩) (hx : 0 < src.size.x.toInt)
    (hw : src.size.x.toInt < 536870912) {rows : Nat} {stride d0 s0 : Int} (line : Nat → Int)
    (hline : ∀ j < rows, 0 ≤ line j ∧ line j < src.size.y.toInt) (hall : ∀ y, 0 ≤ y ∧ y < src.size.y.toInt →
    ∃ j < rows, line j = y) (hdst : ∀ j < rows, d0 + stride * j = b.offset dst.x.toInt (dst.y.toInt + line j))
    (hsrc : ∀ j < rows, s0 + stride * j = b.offset src.pos.x.toInt (src.pos.y.toInt + line j))
    (hsep : ∀ i j, i < j → j < rows → line i ≠ line j ∧ dst.y.toInt + line i ≠ src.pos.y.toInt + line j)
    (hself : dst.y.toInt = src.pos.y.toInt → src.size.x.toInt ≤ |dst.x.toInt - src.pos.x.toInt|) :
    ∃ m', copyRows b.length (sizeT (4 * src.size.x)) stride rows d0 s0 b.buffer = some m' ∧
      b.Moved dst src { b with buffer := m' } := by
  have hn := sizeT_eq (Int.le_of_lt hx) hw
  generalize sizeT (4 * src.size.x) = n at hn ⊢
  have hxs : 0 ≤ src.pos.x.toInt ∧ src.pos.x.toInt + src.size.x.toInt ≤ b.horizontalResolution.toNat := ⟨hs.x.1, hs.x.2.2⟩
  have hxd : 0 ≤ dst.x.toInt ∧ dst.x.toInt + src.size.x.toInt ≤ b.horizontalResolution.toNat := ⟨hd.x.1, hd.x.2.2⟩
  have hok : ∀ j < rows, RowOk b.length n (d0 + stride * j) (s0 + stride * j) := by
    intro j hj
    rw [hdst j hj, hsrc j hj]
    have h1 := hs.row hx (hline j hj)
    have h2 := hd.row hx (hline j hj)
    refine ⟨by simp only at h2; omega, rows_apart hn hxd hxs ?_⟩
    by_cases hy : dst.y.toInt = src.pos.y.toInt
    · have := hself hy
      rw [le_abs] at this
      omega
    · omega
  have hapart : ∀ i j : Nat, i < j → j < rows →
      Apart n (d0 + stride * i) (d0 + stride * j) ∧ Apart n (d0 + stride * i) (s0 + stride * j) := by
    intro i j hij hj
    have hi := Nat.lt_trans hij hj
    rw [hdst i hi, hdst j hj, hsrc j hj]
    obtain ⟨hne, hne'⟩ := hsep i j hij hj
    exact ⟨rows_apart hn hxd hxd (.inl (by omega)), rows_apart hn hxd hxs (.inl hne')⟩
  have hn0 : n ≠ 0 := by omega
  obtain ⟨m', hm', hin, hout⟩ := copyRows_spec (m := b.buffer) hn0 hok hapart
  refine ⟨m', hm', rfl, rfl, fun x y hx0 hy0 k hk => ?_, fun x y hx0 hy0 hno k hk => ?_⟩
  · obtain ⟨j, hj, rfl⟩ := hall y hy0
    have h := hin j hj (4 * x.toNat + k) (by omega)
    rw [hdst j hj, hsrc j hj] at h
    have h1 := (hs.row hx hy0).1
    have h2 := (hd.row hx hy0).1
    unfold byteAt
    have hidx : ∀ x0 y0 : Int, 0 ≤ b.offset x0 y0 →
      (b.offset x0 y0).toNat + (4 * x.toNat + k) = (b.offset (x0 + x) y0).toNat + k := by
      intro x0 y0 h0
      unfold offset at *
      omega
    rw [hidx _ _ h1, hidx _ _ h2] at h
    exact h
  · refine hout ((b.offset x y).toNat + k) fun j hj => ?_
    rw [hdst j hj, hn]
    have hline := hline j hj
    have hnn := Int.mul_nonneg (Int.natCast_nonneg b.horizontalResolution.toNat) hy0.1
    have h0 : 0 ≤ b.offset x y := by
      unfold offset
      omega
    have hcast : ((b.offset x y).toNat : Int) = b.offset x y := Int.toNat_of_nonneg h0
    rw [Int.natCast_add, hcast]
    rcases Int.lt_trichotomy y (dst.y.toInt + line j) with hlt | rfl | hlt
    · have := offset_lt (b := b) (x := x) (s := 1) hlt (by omega) hxd.1
      omega
    · unfold offset
      omega
    · have := offset_lt (b := b) hlt hxd.2 hx0.1
      omega

theorem Holds.first (h : b.Holds src) (hx : 0 < src.size.x.toInt) (hy : 0 < src.size.y.toInt) :
    (b.shadowAddrAt src.pos : Int) = b.offset src.pos.x.toInt src.pos.y.toInt := by
  have hrow := h.row hx (y := 0) ⟨Int.le_refl 0, hy⟩
  rw [Int.add_zero] at hrow
  have hlen := b.length_lt
  exact shadowAddrAt_eq h.x.1 h.y.1 (by omega)

theorem Holds.last (h : b.Holds src) (hx : 0 < src.size.x.toInt) (hy : 0 < src.size.y.toInt) :
    (b.shadowAddrAt (src.pos + ⟨0, src.size.y - 1⟩) : Int) =
      b.offset src.pos.x.toInt (src.pos.y.toInt + (src.size.y.toInt - 1)) := by
  have hrow := h.row hx (y := src.size.y.toInt - 1) (by omega)
  have hlen := b.length_lt
  have hwide : 1 ≤ (b.horizontalResolution.toNat : Int) := by have := h.x; omega
  -- the last row is in the first 4 GiB, so that its number is an `int`
  have hy' : src.pos.y.toInt + (src.size.y.toInt - 1) < 1073741824 := by
    have hle := Int.mul_le_mul_of_nonneg_right hwide (by have := h.y; omega : 0 ≤ src.pos.y.toInt + (src.size.y.toInt - 1))
    have hx0 := h.x.1
    unfold offset at hrow
    omega
  have hone : (1 : Int32).toInt = 1 := rfl
  have hsub := Int32.toInt_sub_cases src.size.y 1
  have hadd := Int32.toInt_add_cases src.pos.y (src.size.y - 1)
  have hlt := src.size.y.toInt_lt
  have hy0 := h.y.1
  have hlast : (src.pos + ⟨0, src.size.y - 1⟩).y.toInt = src.pos.y.toInt + (src.size.y.toInt - 1) := by
    change (src.pos.y + (src.size.y - 1)).toInt = _
    omega
  have hcol : (src.pos + ⟨0, src.size.y - 1⟩).x.toInt = src.pos.x.toInt := by
    rw [Vec.add_x, Int32.add_zero]
  rw [← hlast, ← hcol] at hrow ⊢
  exact shadowAddrAt_eq (hcol.symm ▸ h.x.1) (by omega) (by omega)

theorem map_moved {o : Option Mem} (h : ∃ m', o = some m' ∧ b.Moved dst src { b with buffer := m' }) :
    ∃ b', (o.map fun buffer => { b with buffer := buffer }) = some b' ∧ b.Moved dst src b' := by
  obtain ⟨m', rfl, hm⟩ := h
  exact ⟨_, rfl, hm⟩

theorem moved_self (h : src.size.x.toInt = 0 ∨ src.size.y.toInt = 0) : b.Moved dst src b :=
  ⟨rfl, rfl, fun x y hx hy => by omega, fun _ _ _ _ _ _ _ => rfl⟩

theorem move_of_movable (hs : b.Holds src) (hd : b.Holds ⟨dst, src.size⟩) (h : b.Movable dst src) :
    ∃ b', b.move dst src = some b' ∧ b.Moved dst src b' := by
  by_cases hx0 : src.size.x = 0
  · have hn : sizeT (4 * src.size.x) = 0 := by rw [hx0]; rfl
    refine ⟨b, ?_, moved_self (.inl (by rw [hx0]; rfl))⟩
    simp only [move, hn, copyRows_zero, ite_self, Option.map_some]
  by_cases hy0 : src.size.y = 0
  · have hrows : src.size.y.toInt.toNat = 0 := by rw [hy0]; rfl
    refine ⟨b, ?_, moved_self (.inr (by rw [hy0]; rfl))⟩
    simp only [move, hrows, copyRows, ite_self, Option.map_some]
  obtain ⟨⟨hw, hstride⟩, hcols⟩ := (h.resolve_left hx0).resolve_left hy0
  have hx : 0 < src.size.x.toInt := Int32.toInt_pos hs.x.2.1 hx0
  have hy : 0 < src.size.y.toInt := Int32.toInt_pos hs.y.2.1 hy0
  have hself : dst.y.toInt = src.pos.y.toInt → src.size.x.toInt ≤ |dst.x.toInt - src.pos.x.toInt| := fun he =>
    hcols (Int32.toInt_inj.1 he)
  -- a single row needs no step to the next one
  have hstep : ∀ j : Nat, j < src.size.y.toInt.toNat → b.bytesPerScanLine * j = 4 * b.horizontalResolution.toNat * j := by
    intro j hj
    rcases hstride with h1 | h1
    · have hone : src.size.y.toInt = 1 := by rw [h1]; rfl
      obtain rfl : j = 0 := by omega
      simp
    · rw [bytesPerScanLine_eq h1]
  unfold move
  refine map_moved ?_
  split
  · next hup =>
    rw [Int32.lt_iff_toInt_lt] at hup
    refine moved_of_lines hs hd hx hw (fun j => j) (fun j hj => by omega)
      (fun y hy => ⟨y.toNat, by omega, by omega⟩) (fun j hj => ?_) (fun j hj => ?_) (fun i j hij hj => by omega) hself
    · rw [hd.first hx hy, hstep j hj, offset_add_line]
    · rw [hs.first hx hy, hstep j hj, offset_add_line]
  · next hdown =>
    rw [Int32.lt_iff_toInt_lt] at hdown
    have hback : ∀ x y (j : Nat), j < src.size.y.toInt.toNat → b.offset x (y + (src.size.y.toInt - 1)) +
      -b.bytesPerScanLine * j =
        b.offset x (y + (src.size.y.toInt - 1 - j)) := by
      intro x y j hj
      rw [Int.neg_mul, hstep j hj, offset_add_line, offset_add_line]
      ring
    refine moved_of_lines hs hd hx hw (fun j => src.size.y.toInt - 1 - j) (fun j hj => by omega)
      (fun y hy => ⟨(src.size.y.toInt - 1 - y).toNat, by omega, by omega⟩) (fun j hj => ?_) (fun j hj => ?_)
      (fun i j hij hj => by omega) hself
    · rw [hd.last hx hy]
      exact hback _ _ j hj
    · rw [hs.last hx hy]
      exact hback _ _ j hj

/-- If the second row can be copied, the step to it is not negative. -/
theorem Holds.step (h : b.Holds src) (hx : 0 < src.size.x.toInt) (hy : 1 < src.size.y.toInt) :
    b.horizontalResolution.toNat < 1073741824 ∧
      b.offset src.pos.x.toInt src.pos.y.toInt + 4 * b.horizontalResolution.toNat < 4294967296 ∧
      4 * b.horizontalResolution.toNat ≤ b.offset src.pos.x.toInt (src.pos.y.toInt + (src.size.y.toInt - 1)) := by
  have hlen := b.length_lt
  have hrow := h.row hx (y := 1) ⟨by decide, hy⟩
  have hfirst := h.row hx (y := 0) ⟨Int.le_refl 0, by omega⟩
  rw [offset_add_line] at hrow hfirst
  have hle : 1 ≤ src.pos.y.toInt + (src.size.y.toInt - 1) := by have := h.y.1; omega
  have hmono := b.offset_mono (x := src.pos.x.toInt) hle
  have hone : b.offset src.pos.x.toInt 1 = 4 * b.horizontalResolution.toNat + 4 * src.pos.x.toInt := by
    unfold offset
    ring
  have hx0 := h.x.1
  omega

theorem movable_of_move (hs : b.Holds src) (hd : b.Holds ⟨dst, src.size⟩) (h : (b.move dst src).isSome) :
    b.Movable dst src := by
  by_cases hx0 : src.size.x = 0
  · exact .inl hx0
  by_cases hy0 : src.size.y = 0
  · exact .inr (.inl hy0)
  have hx : 0 < src.size.x.toInt := Int32.toInt_pos hs.x.2.1 hx0
  have hy : 0 < src.size.y.toInt := Int32.toInt_pos hs.y.2.1 hy0
  have hlen := b.length_lt
  have hwide := hs.wide hx hy
  have hn0 : sizeT (4 * src.size.x) ≠ 0 := by
    by_cases hw : src.size.x.toInt < 536870912
    · have := sizeT_eq (Int.le_of_lt hx) hw
      omega
    · have := sizeT_wide (Int.not_lt.1 hw) hwide
      omega
  -- a length that is taken for a large one leaves the buffer
  have hsmall : ∀ {d s : Int}, RowOk b.length (sizeT (4 * src.size.x)) d s → src.size.x.toInt < 536870912 := by
    intro d s hr
    by_contra hw
    have := sizeT_wide (Int.not_lt.1 hw) hwide
    have := hr.1.1
    omega
  have hy1 : src.size.y ≠ 1 → 1 < src.size.y.toInt := fun hne => by
    have hne' : src.size.y.toInt ≠ (1 : Int32).toInt := fun he => hne (Int32.toInt_inj.1 he)
    have hone : (1 : Int32).toInt = 1 := rfl
    omega
  simp only [move, Option.isSome_map] at h
  by_cases hup : dst.y < src.pos.y
  · rw [if_pos hup, copyRows_isSome hn0] at h
    have hw := hsmall (h 0 (by omega))
    refine .inr (.inr ⟨⟨hw, ?_⟩, fun he => ?_⟩)
    · by_contra hstride
      simp only [not_or, not_lt] at hstride
      obtain ⟨hlt, hnext, _⟩ := hd.step hx (hy1 hstride.1)
      have hrow := (h 1 (by have := hy1 hstride.1; omega)).1.1
      rw [hd.first hx hy, bytesPerScanLine_wide hstride.2 hlt] at hrow
      omega
    · rw [he] at hup
      exact absurd hup Int32.lt_irrefl
  · rw [if_neg hup, copyRows_isSome hn0] at h
    have hw := hsmall (h 0 (by omega))
    refine .inr (.inr ⟨⟨hw, ?_⟩, fun he => ?_⟩)
    · by_contra hstride
      simp only [not_or, not_lt] at hstride
      obtain ⟨hlt, _, hlast⟩ := hd.step hx (hy1 hstride.1)
      have hrow := (h 1 (by have := hy1 hstride.1; omega)).1.1
      rw [hd.last hx hy, bytesPerScanLine_wide hstride.2 hlt] at hrow
      omega
    · have hap := (h 0 (by omega)).2
      have hey : dst.y.toInt = src.pos.y.toInt := by rw [he]
      rw [hd.last hx hy, hs.last hx hy] at hap
      simp only [Apart, sizeT_eq (Int.le_of_lt hx) hw, hey, offset] at hap
      rw [le_abs]
      omega

/-- **`Move` moves a rectangle exactly if no row overlaps the row it is copied to**, and the lengths are `int`s. -/
theorem move_iff (hs : b.Holds src) (hd : b.Holds ⟨dst, src.size⟩) :
    (∃ b', b.move dst src = some b' ∧ b.Moved dst src b') ↔ b.Movable dst src := by
  refine ⟨fun ⟨b', h, _⟩ => movable_of_move hs hd (by rw [h]; rfl), move_of_movable hs hd⟩

/-- Two rows are moved up, over themselves. -/
theorem move_scroll : ∃ b', (initialized 2 3).move ⟨0, 0⟩ ⟨⟨0, 1⟩, ⟨2, 2⟩⟩ = some b' ∧
    (initialized 2 3).Moved ⟨0, 0⟩ ⟨⟨0, 1⟩, ⟨2, 2⟩⟩ b' :=
  (move_iff ⟨by decide, by decide, fun _ _ => by decide⟩ ⟨by decide, by decide, fun _ _ => by decide⟩).2
    (by unfold Movable; decide)

/-- A rectangle of two pixels is moved by one pixel to the right. -/
theorem move_overlap : ¬ ∀ (b : ShadowBuffer) (dst : Vec) (src : Rectangle), b.Holds src → b.Holds ⟨dst, src.size⟩ →
    ∃ b', b.move dst src = some b' ∧ b.Moved dst src b' := by
  intro h
  obtain ⟨b', hb, _⟩ := h (initialized 3 1) ⟨1, 0⟩ ⟨⟨0, 0⟩, ⟨2, 1⟩⟩ ⟨by decide, by decide, fun _ _ => by decide⟩
    ⟨by decide, by decide, fun _ _ => by decide⟩
  have hsome : ((initialized 3 1).move ⟨1, 0⟩ ⟨⟨0, 0⟩, ⟨2, 1⟩⟩).isSome = true := by rw [hb]; rfl
  revert hsome
  decide

/-! ## Colours -/

theorem Moved.colorAt {b' : ShadowBuffer} (h : b.Moved dst src b') :
    (∀ x y : Int, 0 ≤ x ∧ x < src.size.x.toInt → 0 ≤ y ∧ y < src.size.y.toInt →
      b.offset (dst.x.toInt + x) (dst.y.toInt + y) + 4 ≤ b.length →
        b.offset (src.pos.x.toInt + x) (src.pos.y.toInt + y) + 4 ≤ b.length →
      b'.colorAt (dst.x.toInt + x) (dst.y.toInt + y) = b.colorAt (src.pos.x.toInt + x) (src.pos.y.toInt + y)) ∧
    ∀ x y : Int, 0 ≤ x ∧ x < b.horizontalResolution.toNat → 0 ≤ y ∧ y < b.verticalResolution.toNat →
      ¬ ((dst.x.toInt ≤ x ∧ x < dst.x.toInt + src.size.x.toInt) ∧ dst.y.toInt ≤ y ∧ y < dst.y.toInt + src.size.y.toInt) →
      b'.colorAt x y = b.colorAt x y := by
  have hlen : b'.length = b.length := by rw [length, length, h.width, h.height]
  have hoff : ∀ x y, b'.offset x y = b.offset x y := fun x y => by rw [offset, offset, h.width]
  refine ⟨fun x y hx hy h1 h2 => ?_, fun x y hx hy hno => ?_⟩
  · have hin := h.inside x y hx hy
    simp only [ShadowBuffer.colorAt, hlen, hoff, if_pos h1, if_pos h2]
    rw [hin 2 (by decide), hin 1 (by decide), hin 0 (by decide)]
  · have hout := h.outside x y hx hy hno
    simp only [ShadowBuffer.colorAt, hlen, hoff]
    rw [hout 2 (by decide), hout 1 (by decide), hout 0 (by decide)]

/-- A pixel that is written in the buffer, and the others. -/
theorem writePixel_colorAt (hx : 0 ≤ pos.x.toInt) (hy : 0 ≤ pos.y.toInt)
    (h : b.offset pos.x.toInt pos.y.toInt + 4 ≤ b.length) (c : PixelColor) : ∃ b', b.writePixel pos c = some b' ∧
      b'.horizontalResolution = b.horizontalResolution ∧ b'.verticalResolution = b.verticalResolution ∧
      b'.colorAt pos.x.toInt pos.y.toInt = some c ∧
      ∀ x y, 0 ≤ b.offset x y → b.offset x y + 4 ≤ b.offset pos.x.toInt pos.y.toInt ∨
        b.offset pos.x.toInt pos.y.toInt + 4 ≤ b.offset x y → b'.colorAt x y = b.colorAt x y := by
  have hlen := b.length_lt
  have haddr := shadowAddrAt_eq (b := b) hx hy (by omega)
  have hroom : b.shadowAddrAt pos + 3 ≤ b.length := by omega
  refine ⟨_, if_pos hroom, rfl, rfl, ?_, fun x y h0 hap => ?_⟩
  · have hp : (b.offset pos.x.toInt pos.y.toInt).toNat = b.shadowAddrAt pos := by omega
    refine (if_pos h).trans ?_
    simp only [byteAt, offset] at hp ⊢
    simp only [hp]
    simp
  · have hne : ∀ k < 4, ∀ j < 3, (b.offset x y).toNat + k ≠ b.shadowAddrAt pos + j := by omega
    have hbyte : ∀ k < 4, (if (b.offset x y).toNat + k = b.shadowAddrAt pos then c.b
        else if (b.offset x y).toNat + k = b.shadowAddrAt pos + 1 then c.g
        else if (b.offset x y).toNat + k = b.shadowAddrAt pos + 2 then c.r else b.buffer ((b.offset x y).toNat + k)) =
        b.byteAt x y k := by
      intro k hk
      have hne0 : (b.offset x y).toNat + k ≠ b.shadowAddrAt pos := hne k hk 0 (by decide)
      rw [if_neg hne0, if_neg (hne k hk 1 (by decide)), if_neg (hne k hk 2 (by decide))]
      rfl
    unfold colorAt
    refine ite_congr rfl (fun _ => ?_) fun _ => rfl
    exact congrArg some (by rw [PixelColor.mk.injEq]; exact ⟨hbyte 2 (by decide), hbyte 1 (by decide), hbyte 0 (by decide)⟩)

end ShadowBuffer

end KinOS.Gui
