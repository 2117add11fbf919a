import KinOS.Gui.DrawTo
import KinOS.Lib.Painter

/-!
# The two ways to a pixel of the screen

| here | there |
| --- | --- |
| `shown`       | what the screen makes of the bytes of a pixel (`kernel/graphics.cpp:3-17`) |
| `SamePicture` | `CopyToFrameBuffer` against `WritePixel` (`kernel/syscall.cpp:216-248`) |

The shadow buffer holds blue, green and red in this order, whatever the format of the screen, and `CopyToFrameBuffer` copies
bytes. `WritePixel` goes through the writer the kernel has chosen for the format.
-/

namespace KinOS.Gui

open Bytes

/-- The frame buffer after some bytes have been written. -/
def put (f : Mem) (drawn : Bytewise) : Mem := Painter.stamp (drawn.map fun e => (e.1, some e.2)) f

theorem put_of_mem {drawn : Bytewise} {a : Nat} {v : UInt8} (h : (a, v) ∈ drawn)
    (hu : ∀ v', (a, v') ∈ drawn → v' = v) (f : Mem) :
    put f drawn a = v := by
  refine Painter.stamp_of_mem (o := some v) (List.mem_map.2 ⟨(a, v), h, rfl⟩) (fun o ho => ?_) f
  obtain ⟨⟨a', v'⟩, hmem, he⟩ := List.mem_map.1 ho
  cases he
  rw [hu v' hmem]

theorem put_of_not_mem {drawn : Bytewise} {a : Nat} (h : ∀ v, (a, v) ∉ drawn) (f : Mem) : put f drawn a = f a := by
  refine Painter.stamp_of_not_mem (fun o ho => ?_) f
  obtain ⟨⟨a', v'⟩, hmem, he⟩ := List.mem_map.1 ho
  cases he
  exact h v' hmem

namespace FrameBufferConfig

/-- The offset of a pixel of the screen. -/
def offset (config : FrameBufferConfig) (p : Vec) : Int := 4 * (config.pixelsPerScanLine.toNat * p.y.toInt + p.x.toInt)

/-- The colour of a pixel of the screen. -/
def shown (config : FrameBufferConfig) (f : Mem) (p : Vec) : PixelColor :=
  let a := (config.offset p).toNat
  match config.pixelFormat with
  | .rgbResv8BitPerColor => ⟨f a, f (a + 1), f (a + 2)⟩
  | .bgrResv8BitPerColor => ⟨f (a + 2), f (a + 1), f a⟩

end FrameBufferConfig

namespace Window

/-- A pixel of the window is written and the window is drawn; on another screen the same pixel is drawn directly. Both
show the same colour, whatever they showed before. -/
def SamePicture (w : Window) (config : FrameBufferConfig) (pos : Vec) (area : Rectangle) (p : Vec) (c : PixelColor) : Prop :=
  ∃ w' drawn, w.write (p - pos) c = some w' ∧ w'.drawTo config pos area = some drawn ∧
    ∀ f f' : Mem, config.shown (put f drawn) p = config.shown (put f' (config.writePixel p c)) p

/-- The visible part is empty; or its rows have lengths that are `int`s, they lie in the shadow buffer at the places that are
computed in an `unsigned int`, and the last one starts in the first 4 GiB of the frame buffer. -/
def Copyable (w : Window) (config : FrameBufferConfig) (pos : Vec) (area : Rectangle) : Prop :=
  let x0 := visibleFrom pos.x area.pos.x
  let x1 := visibleTo config.screenSize.x pos.x w.width area.pos.x area.size.x
  let y0 := visibleFrom pos.y area.pos.y
  let y1 := visibleTo config.screenSize.y pos.y w.height area.pos.y area.size.y
  x1 ≤ x0 ∨ y1 ≤ y0 ∨
    (x1 - x0 < 536870912 ∧
      4 * (w.width.toInt * (y0 - pos.y.toInt) + (x0 - pos.x.toInt)) % 4294967296 +
          4 * w.width.toInt % 4294967296 * (y1 - 1 - y0) + 4 * (x1 - x0) ≤
        4 * w.width.toInt * w.height.toInt % 4294967296 ∧
      4 * (config.pixelsPerScanLine.toNat * (y1 - 1) + x0) < 4294967296)

variable {w w' : Window} {config : FrameBufferConfig} {pos p : Vec} {area : Rectangle} {drawn : Bytewise} {c : PixelColor}

/-! ## The bytes of a pixel -/

/-- A pixel of the screen has bytes of its own. -/
theorem offset_inj {s x y x' y' : Int} {k k' : Nat} (hx : 0 ≤ x ∧ x < s) (hx' : 0 ≤ x' ∧ x' < s) (hk : k < 4) (hk' : k' < 4)
    (h : 4 * (s * y + x) + k = 4 * (s * y' + x') + k') : (x = x' ∧ y = y') ∧ k = k' := by
  have hy : y = y' := by
    rcases Int.lt_trichotomy y y' with hlt | he | hlt
    · have hm := Int.mul_le_mul_of_nonneg_left (Int.add_one_le_of_lt hlt) (by omega : 0 ≤ s)
      rw [Int.mul_add, Int.mul_one] at hm
      omega
    · exact he
    · have hm := Int.mul_le_mul_of_nonneg_left (Int.add_one_le_of_lt hlt) (by omega : 0 ≤ s)
      rw [Int.mul_add, Int.mul_one] at hm
      omega
  subst hy
  omega

theorem Visible.on_screen {x y : Int} (h : Visible config.screenSize pos w.size area x y) :
    (0 ≤ x ∧ x < config.pixelsPerScanLine.toNat) ∧ 0 ≤ y := by
  obtain ⟨⟨hx, hy⟩, _⟩ := h
  have hs := (screen_toInt config).1
  have hw := config.wide
  omega

/-- The bytes of a visible pixel, once each has been drawn with its own. -/
theorem put_pixel {bytes : Int → Int → Nat → UInt8}
    (hd : ∀ (a : Nat) v, (a, v) ∈ drawn ↔ ∃ x y, Visible config.screenSize pos w.size area x y ∧ ∃ k < 4,
      (a : Int) = 4 * (config.pixelsPerScanLine.toNat * y + x) + (k : Nat) ∧ v = bytes x y k)
    (hp : Visible config.screenSize pos w.size area p.x.toInt p.y.toInt) (f : Mem) {k : Nat} (hk : k < 4) :
    put f drawn ((config.offset p).toNat + k) = bytes p.x.toInt p.y.toInt k := by
  obtain ⟨hx, hy⟩ := hp.on_screen
  have hnn := Int.mul_nonneg (Int.natCast_nonneg config.pixelsPerScanLine.toNat) hy
  have haddr : (((config.offset p).toNat + k : Nat) : Int) =
      4 * (config.pixelsPerScanLine.toNat * p.y.toInt + p.x.toInt) + (k : Nat) := by
    unfold FrameBufferConfig.offset
    omega
  refine put_of_mem ((hd _ _).2 ⟨_, _, hp, k, hk, haddr, rfl⟩) (fun v hv => ?_) f
  obtain ⟨x, y, hxy, k', hk', ha, rfl⟩ := (hd _ _).1 hv
  obtain ⟨⟨rfl, rfl⟩, rfl⟩ := offset_inj hx hxy.on_screen.1 hk hk' (haddr.symm.trans ha)
  rfl

theorem Exact.byte (he : w.Exact config pos area drawn)
    (hp : Visible config.screenSize pos w.size area p.x.toInt p.y.toInt) (f : Mem) {k : Nat} (hk : k < 4) :
    put f drawn ((config.offset p).toNat + k) =
      w.shadowBuffer.byteAt (p.x.toInt - pos.x.toInt) (p.y.toInt - pos.y.toInt) k :=
  put_pixel he.writes hp f hk

/-- The bytes of a pixel of the screen that is not visible are left alone. -/
theorem Exact.byte_of_hidden (he : w.Exact config pos area drawn) (hp : Inside config.screenSize p)
    (hn : ¬ Visible config.screenSize pos w.size area p.x.toInt p.y.toInt) (f : Mem) {k : Nat} (hk : k < 4) :
    put f drawn ((config.offset p).toNat + k) = f ((config.offset p).toNat + k) := by
  simp only [Inside, Int32.le_iff_toInt_le, Int32.lt_iff_toInt_lt, Int32.toInt_zero] at hp
  refine put_of_not_mem (fun v hmem => hn ?_) f
  obtain ⟨x, y, hxy, k', hk', haddr, _⟩ := (he.writes _ _).1 hmem
  have hwide := config.wide
  have hres := (screen_toInt config).1
  have hnn := Int.mul_nonneg (Int.natCast_nonneg config.pixelsPerScanLine.toNat) hp.2.1
  have hpx : 0 ≤ p.x.toInt ∧ p.x.toInt < config.pixelsPerScanLine.toNat := by omega
  have heq : 4 * ((config.pixelsPerScanLine.toNat : Int) * p.y.toInt + p.x.toInt) + k =
      4 * (config.pixelsPerScanLine.toNat * y + x) + k' := by
    unfold FrameBufferConfig.offset at haddr
    omega
  obtain ⟨⟨rfl, rfl⟩, -⟩ := offset_inj hpx hxy.on_screen.1 hk hk' heq
  exact hxy

/-- Red and blue change places if the screen expects red first. -/
def copied (format : PixelFormat) (c : PixelColor) : PixelColor :=
  match format with
  | .rgbResv8BitPerColor => ⟨c.b, c.g, c.r⟩
  | .bgrResv8BitPerColor => c

theorem copied_eq {format : PixelFormat} : copied format c = c ↔ format = .bgrResv8BitPerColor ∨ c.r = c.b := by
  cases format with
  | rgbResv8BitPerColor =>
    cases c
    simp only [copied, PixelColor.mk.injEq, reduceCtorEq, false_or, true_and]
    exact ⟨fun h => h.2, fun h => ⟨h.symm, h⟩⟩
  | bgrResv8BitPerColor => simp [copied]

/-- The colour of a visible pixel that has been drawn as it should be. -/
theorem Exact.colour (he : w.Exact config pos area drawn)
    (hp : Visible config.screenSize pos w.size area p.x.toInt p.y.toInt)
    (hc : w.shadowBuffer.colorAt (p.x.toInt - pos.x.toInt) (p.y.toInt - pos.y.toInt) = some c) (f : Mem) :
    config.shown (put f drawn) p = copied config.pixelFormat c := by
  rw [ShadowBuffer.colorAt, if_pos (he.reads _ _ hp)] at hc
  cases Option.some.inj hc
  have h0 := he.byte hp f (k := 0) (by decide)
  have h1 := he.byte hp f (k := 1) (by decide)
  have h2 := he.byte hp f (k := 2) (by decide)
  rw [Nat.add_zero] at h0
  simp only [FrameBufferConfig.shown, h0, h1, h2, copied]

theorem offset_nonneg (hx : 0 ≤ p.x.toInt) (hy : 0 ≤ p.y.toInt) : 0 ≤ config.offset p := by
  have hnn := Int.mul_nonneg (Int.natCast_nonneg config.pixelsPerScanLine.toNat) hy
  unfold FrameBufferConfig.offset
  omega

/-- The transparent path, in the first 4 GiB of the frame buffer. -/
theorem shown_writePixel (hx : 0 ≤ p.x.toInt) (hy : 0 ≤ p.y.toInt) (h : config.offset p < 4294967296) (f : Mem) :
    config.shown (put f (config.writePixel p c)) p = c := by
  have h0 : 0 ≤ config.offset p := offset_nonneg hx hy
  have haddr : config.pixelAt p = (config.offset p).toNat := by
    have hmod := pixelAt_emod config hx hy
    rw [← FrameBufferConfig.offset, Int.emod_eq_of_lt h0 h] at hmod
    omega
  unfold FrameBufferConfig.shown FrameBufferConfig.writePixel
  cases config.pixelFormat with
  | rgbResv8BitPerColor => simp [put, Painter.stamp, haddr]
  | bgrResv8BitPerColor => simp [put, Painter.stamp, haddr]

/-- The transparent path, beyond: another pixel is written. -/
theorem shown_wrapped (hx : 0 ≤ p.x.toInt) (hy : 0 ≤ p.y.toInt) (h : 4294967296 ≤ config.offset p) (f : Mem) :
    config.shown (put f (config.writePixel p c)) p = config.shown f p := by
  have hmod := pixelAt_emod config hx hy
  rw [← FrameBufferConfig.offset] at hmod
  have hfar : ∀ k < 3, ∀ v, ((config.offset p).toNat + k, v) ∉ config.writePixel p c := by
    intro k hk v hv
    unfold FrameBufferConfig.writePixel at hv
    split at hv <;> simp only [List.mem_cons, Prod.mk.injEq, List.not_mem_nil, or_false] at hv <;> omega
  have hput : ∀ k < 3, put f (config.writePixel p c) ((config.offset p).toNat + k) = f ((config.offset p).toNat + k) :=
    fun k hk => put_of_not_mem (hfar k hk) f
  have h0 := hput 0 (by decide)
  rw [Nat.add_zero] at h0
  simp only [FrameBufferConfig.shown, h0, hput 1 (by decide), hput 2 (by decide)]

/-- What the transparent path leaves as it was need not be the colour. -/
theorem offset_lt_of_same (hx : 0 ≤ p.x.toInt) (hy : 0 ≤ p.y.toInt)
    (hsame : ∀ f f' : Mem, config.shown (put f drawn) p = config.shown (put f' (config.writePixel p c)) p) :
    config.offset p < 4294967296 := by
  by_contra hhigh
  have hold : ∀ f', config.shown (put (fun _ => 0) drawn) p = config.shown f' p := fun f' =>
    (hsame _ f').trans (shown_wrapped hx hy (not_lt.1 hhigh) f')
  have hdiff := (hold fun _ => 0).symm.trans (hold fun _ => 1)
  unfold FrameBufferConfig.shown at hdiff
  split at hdiff <;> simp at hdiff

/-! ## A pixel that is written -/

theorem write_some {q : Vec} (h : w.write q c = some w') : Inside w.size q ∧ (w'.width = w.width ∧ w'.height = w.height) ∧
    w'.transparentColor = w.transparentColor ∧ w.shadowBuffer.writePixel q c = some w'.shadowBuffer := by
  unfold write at h
  split at h
  · next hq =>
    obtain ⟨b, hb, rfl⟩ := Option.map_eq_some_iff.1 h
    refine ⟨hq, ⟨rfl, rfl⟩, rfl, hb.trans (congrArg some ?_)⟩
    unfold ShadowBuffer.writePixel at hb
    simp only at hb
    split at hb
    · cases hb
      rfl
    · cases hb
  · cases h

/-- The pixel of the window that is seen at `p`. -/
theorem visible_sub (hp : Visible config.screenSize pos w.size area p.x.toInt p.y.toInt) :
    (p - pos).x.toInt = p.x.toInt - pos.x.toInt ∧ (p - pos).y.toInt = p.y.toInt - pos.y.toInt := by
  obtain ⟨_, _, hx, hy⟩ := hp
  have hwx := w.width.toInt_lt
  have hwy := w.height.toInt_lt
  have h1 := Int32.toInt_sub_cases p.x pos.x
  have h2 := Int32.toInt_sub_cases p.y pos.y
  simp only [size] at hx hy
  simp only [Vec.sub_x, Vec.sub_y]
  omega

/-- Where a visible pixel of the window is in the shadow buffer. -/
theorem visible_source (hp : Visible config.screenSize pos w.size area p.x.toInt p.y.toInt) :
    (w.shadowBuffer.shadowAddrAt (p - pos) : Int) =
      w.shadowBuffer.offset (p.x.toInt - pos.x.toInt) (p.y.toInt - pos.y.toInt) % 4294967296 := by
  obtain ⟨hqx, hqy⟩ := visible_sub hp
  obtain ⟨-, -, hx, hy⟩ := hp
  refine (ShadowBuffer.addr_emod w.shadowBuffer.horizontalResolution (by rw [hqx]; omega) (by rw [hqy]; omega)).trans ?_
  rw [hqx, hqy]
  rfl

theorem write_visible (hp : Visible config.screenSize pos w.size area p.x.toInt p.y.toInt)
    (hend : w.shadowBuffer.offset (p.x.toInt - pos.x.toInt) (p.y.toInt - pos.y.toInt) % 4294967296 + 4 ≤
      w.shadowBuffer.length) (c : PixelColor) : ∃ w', w.write (p - pos) c = some w' := by
  obtain ⟨hqx, hqy⟩ := visible_sub hp
  have hsource := visible_source hp
  obtain ⟨-, -, hx, hy⟩ := hp
  simp only [size] at hx hy
  have hin : Inside w.size (p - pos) := inside_toInt.2 (by rw [hqx, hqy]; omega)
  rw [write, if_pos hin, ShadowBuffer.writePixel, if_pos (by omega)]
  exact ⟨_, rfl⟩

/-- The bytes of the pixel that has been written. -/
theorem write_bytes {q : Vec} (h : w.write q c = some w') :
    w'.shadowBuffer.buffer (w.shadowBuffer.shadowAddrAt q) = c.b ∧
      w'.shadowBuffer.buffer (w.shadowBuffer.shadowAddrAt q + 1) = c.g ∧
      w'.shadowBuffer.buffer (w.shadowBuffer.shadowAddrAt q + 2) = c.r := by
  have hb := (write_some h).2.2.2
  unfold ShadowBuffer.writePixel at hb
  dsimp only at hb
  split at hb
  · rw [← Option.some.inj hb]
    simp
  · cases hb

/-- The opaque path. -/
theorem Copied.colour (hc : w'.Copied config pos area drawn) (hw : w.write (p - pos) c = some w')
    (hp : Visible config.screenSize pos w.size area p.x.toInt p.y.toInt) (f : Mem) :
    config.shown (put f drawn) p = copied config.pixelFormat c := by
  obtain ⟨_, ⟨hwidth, hheight⟩, -⟩ := write_some hw
  have hsize : w'.size = w.size := by rw [size, size, hwidth, hheight]
  have hsource := visible_source hp
  obtain ⟨hb, hg, hr⟩ := write_bytes hw
  have hoff : w'.shadowBuffer.offset (p.x.toInt - pos.x.toInt) (p.y.toInt - pos.y.toInt) % 4294967296 =
      w.shadowBuffer.shadowAddrAt (p - pos) := by
    rw [hsource]
    simp only [ShadowBuffer.offset, shadowBuffer, hwidth]
  have hbyte : ∀ k < 4, put f drawn ((config.offset p).toNat + k) =
      w'.shadowBuffer.buffer (w.shadowBuffer.shadowAddrAt (p - pos) + k) := by
    intro k hk
    rw [put_pixel hc (hsize ▸ hp) f hk, hoff, Int.toNat_natCast]
  have h0 := hbyte 0 (by decide)
  rw [Nat.add_zero, Nat.add_zero] at h0
  simp only [FrameBufferConfig.shown, h0, hbyte 1 (by decide), hbyte 2 (by decide), hb, hg, hr, copied]

/-! ## The windows that are copied -/

/-- The visible part of a window that can be copied has all its bytes on the screen and in the shadow buffer. -/
theorem copied_of_copyable (ht : w.transparentColor = none) (ha : area.Sized) (hfa : area.Fits)
    (hf : Rectangle.Fits ⟨pos, w.size⟩) (h : w.Copyable config pos area) :
    (∃ drawn, w.drawTo config pos area = some drawn ∧ w.Copied config pos area drawn) ∧
      ∀ x y, Visible config.screenSize pos w.size area x y →
        w.shadowBuffer.offset (x - pos.x.toInt) (y - pos.y.toInt) % 4294967296 + 4 ≤ w.shadowBuffer.length := by
  by_cases hx : visibleFrom pos.x area.pos.x < visibleTo config.screenSize.x pos.x w.width area.pos.x area.size.x ∧
      visibleFrom pos.y area.pos.y < visibleTo config.screenSize.y pos.y w.height area.pos.y area.size.y
  · obtain ⟨hb, hr⟩ := rowsDrawn_of_nonempty ha hfa hf hx.1 hx.2
    obtain ⟨hn, hl, hs⟩ := (h.resolve_left (not_le.2 hx.1)).resolve_left (not_le.2 hx.2)
    have hw := within32_iff.2 hl
    rw [drawTo_eq ht]
    exact ⟨hr.copied hb (fun _ _ => visible_iff) hn hw hs, fun x y hxy =>
      (hw.source (visible_iff.1 hxy).1 (visible_iff.1 hxy).2).2⟩
  · have hnone : ∀ x y, ¬ Visible config.screenSize pos w.size area x y := by
      intro x y hxy
      have hin := visible_iff.1 hxy
      omega
    obtain ⟨drawn, hd, he⟩ := exact_of_empty ht ha hnone
    refine ⟨⟨drawn, hd, fun a v => (he.writes a v).trans ?_⟩, fun x y hxy => absurd hxy (hnone x y)⟩
    exact ⟨fun ⟨x, y, hxy, _⟩ => absurd hxy (hnone x y), fun ⟨x, y, hxy, _⟩ => absurd hxy (hnone x y)⟩

/-- A window whose last visible pixel is in the first 4 GiB of the frame buffer can be copied if anything of it is drawn. -/
theorem copyable_of_drawn (ht : w.transparentColor = none) (ha : area.Sized) (hfa : area.Fits)
    (hf : Rectangle.Fits ⟨pos, w.size⟩) (hd : w.drawTo config pos area = some drawn) (hne : drawn ≠ [])
    (hlast : 4 * (config.pixelsPerScanLine.toNat *
        (visibleTo config.screenSize.y pos.y w.height area.pos.y area.size.y - 1) +
        (visibleTo config.screenSize.x pos.x w.width area.pos.x area.size.x - 1)) < 4294967296) :
    w.Copyable config pos area := by
  by_cases hx : visibleFrom pos.x area.pos.x < visibleTo config.screenSize.x pos.x w.width area.pos.x area.size.x
  swap
  · exact .inl (not_lt.1 hx)
  by_cases hy : visibleFrom pos.y area.pos.y < visibleTo config.screenSize.y pos.y w.height area.pos.y area.size.y
  swap
  · exact .inr (.inl (not_lt.1 hy))
  obtain ⟨hb, hr⟩ := rowsDrawn_of_nonempty ha hfa hf hx hy
  rw [drawTo_eq ht] at hd
  have hrows := copyLines_isSome.1 (Option.isSome_of_eq_some hd)
  have hbx := hb.x
  have hby := hb.y
  have hrx := hr.x
  have hlen := w.shadowBuffer.length_lt
  have hpps := Int.mul_nonneg (Int.natCast_nonneg config.pixelsPerScanLine.toNat)
    (show 0 ≤ visibleTo config.screenSize.y pos.y w.height area.pos.y area.size.y - 1 by omega)
  have hzero : sizeT (4 * (w.copyArea config pos area).size.x) ≠ 0 := by
    intro h0
    refine hne (List.eq_nil_iff_forall_not_mem.2 fun e he => ?_)
    obtain ⟨j, -, k, hk, -⟩ := (copyLines_mem hd).1 he
    omega
  have hn : (w.copyArea config pos area).size.x.toInt < 536870912 := by
    by_contra hn
    rcases Int.lt_or_eq_of_le (show (w.copyArea config pos area).size.x.toInt ≤ 1073741824 by omega) with hlt | heq
    · have hbig := ShadowBuffer.sizeT_wide (not_lt.1 hn) hlt
      have hrow := (hrows 0 (by rw [hr.y.2]; omega)).resolve_left hzero
      omega
    · -- the length in bytes is `2 ^ 32`, which is no length at all
      have hsize : (w.copyArea config pos area).size.x = 1073741824 := Int32.toInt_inj.1 (heq.trans (by decide))
      rw [hsize] at hzero
      exact hzero (by decide)
  have hlen4 := ShadowBuffer.sizeT_eq (by omega) hn
  refine .inr (.inr ⟨by omega, within32_iff.1 ?_, by omega⟩)
  have hrow := (hrows _ (show (visibleTo config.screenSize.y pos.y w.height area.pos.y area.size.y - 1 -
    visibleFrom pos.y area.pos.y).toNat < _ by rw [hr.y.2]; omega)).resolve_left hzero
  have hj := Int.toNat_of_nonneg (show 0 ≤ visibleTo config.screenSize.y pos.y w.height area.pos.y area.size.y - 1 -
    visibleFrom pos.y area.pos.y by omega)
  rw [Within32, ← hr.source hb, ← hj]
  omega

/-! ## Both paths -/

theorem copyable_write {q : Vec} (hw : w.write q c = some w') :
    w'.Copyable config pos area ↔ w.Copyable config pos area := by
  obtain ⟨_, ⟨hwidth, hheight⟩, -⟩ := write_some hw
  unfold Copyable
  rw [hwidth, hheight]

/-- One pixel of a window that can be copied. -/
theorem samePicture_of_copyable (ht : w.transparentColor = none) (ha : area.Sized) (hfa : area.Fits)
    (hf : Rectangle.Fits ⟨pos, w.size⟩) (h : w.Copyable config pos area)
    (hp : Visible config.screenSize pos w.size area p.x.toInt p.y.toInt) :
    w.SamePicture config pos area p c ↔
      config.offset p < 4294967296 ∧ (config.pixelFormat = .bgrResv8BitPerColor ∨ c.r = c.b) := by
  have hscreen := hp.on_screen
  obtain ⟨w1, hw1⟩ := write_visible hp ((copied_of_copyable ht ha hfa hf h).2 _ _ hp) c
  obtain ⟨_, ⟨hwidth, hheight⟩, ht1, -⟩ := write_some hw1
  have hsize : w1.size = w.size := by rw [size, size, hwidth, hheight]
  obtain ⟨drawn, hd, hcopied⟩ := (copied_of_copyable (ht1.trans ht) ha hfa (hsize ▸ hf) ((copyable_write hw1).2 h)).1
  have hshown := hcopied.colour hw1 hp
  constructor
  · rintro ⟨w', drawn', hw', hd', hsame⟩
    obtain rfl := Option.some.inj (hw1.symm.trans hw')
    obtain rfl := Option.some.inj (hd.symm.trans hd')
    have hlow := offset_lt_of_same hscreen.1.1 hscreen.2 hsame
    refine ⟨hlow, copied_eq.1 ?_⟩
    rw [← hshown fun _ => 0, hsame _ fun _ => 0, shown_writePixel hscreen.1.1 hscreen.2 hlow]
  · rintro ⟨hlow, hformat⟩
    refine ⟨w1, drawn, hw1, hd, fun f f' => ?_⟩
    rw [hshown, shown_writePixel hscreen.1.1 hscreen.2 hlow]
    exact copied_eq.2 hformat

/-- A window whose visible pixels are all the same can be copied: the last of them says so. -/
theorem copyable_of_all (ht : w.transparentColor = none) (ha : area.Sized) (hfa : area.Fits)
    (hf : Rectangle.Fits ⟨pos, w.size⟩)
    (hall : ∀ p : Vec, Visible config.screenSize pos w.size area p.x.toInt p.y.toInt → w.SamePicture config pos area p c) :
    w.Copyable config pos area := by
  by_cases hx : visibleFrom pos.x area.pos.x < visibleTo config.screenSize.x pos.x w.width area.pos.x area.size.x
  swap
  · exact .inl (not_lt.1 hx)
  by_cases hy : visibleFrom pos.y area.pos.y < visibleTo config.screenSize.y pos.y w.height area.pos.y area.size.y
  swap
  · exact .inr (.inl (not_lt.1 hy))
  obtain ⟨p, hpx, hpy⟩ := exists_last hx hy
  have hp : Visible config.screenSize pos w.size area p.x.toInt p.y.toInt := visible_iff.2 (by omega)
  obtain ⟨w', drawn, hw', hd, hsame⟩ := hall p hp
  have hlow := offset_lt_of_same hp.on_screen.1.1 hp.on_screen.2 hsame
  obtain ⟨_, ⟨hwidth, hheight⟩, ht', -⟩ := write_some hw'
  have hsize : w'.size = w.size := by rw [size, size, hwidth, hheight]
  have hne : drawn ≠ [] := by
    rintro rfl
    have hold := (hsame (fun _ => 0) fun _ => 0).trans (hsame (fun _ => 1) fun _ => 0).symm
    revert hold
    unfold FrameBufferConfig.shown put
    cases config.pixelFormat <;> simp [Painter.stamp]
  rw [FrameBufferConfig.offset, hpx, hpy, ← hwidth, ← hheight] at hlow
  exact (copyable_write hw').1 (copyable_of_drawn (ht'.trans ht) ha hfa (hsize ▸ hf) hd hne hlow)

/-- **Both paths show the same colour exactly if the screen expects blue first, or red and blue are alike**: pixel by pixel
for a window that can be copied at all, with the offset of the pixel in an `unsigned int`; and a window whose visible pixels
are all the same can be copied. -/
theorem same_picture_iff (ht : w.transparentColor = none) (ha : area.Sized) (hfa : area.Fits)
    (hf : Rectangle.Fits ⟨pos, w.size⟩) :
    (w.Copyable config pos area → ∀ p : Vec, Visible config.screenSize pos w.size area p.x.toInt p.y.toInt →
      (w.SamePicture config pos area p c ↔
        config.offset p < 4294967296 ∧ (config.pixelFormat = .bgrResv8BitPerColor ∨ c.r = c.b))) ∧
    ((∀ p : Vec, Visible config.screenSize pos w.size area p.x.toInt p.y.toInt → w.SamePicture config pos area p c) ↔
      w.Copyable config pos area ∧ ∀ p : Vec, Visible config.screenSize pos w.size area p.x.toInt p.y.toInt →
        config.offset p < 4294967296 ∧ (config.pixelFormat = .bgrResv8BitPerColor ∨ c.r = c.b)) := by
  have hpixel : w.Copyable config pos area → ∀ p : Vec,
      Visible config.screenSize pos w.size area p.x.toInt p.y.toInt → (w.SamePicture config pos area p c ↔
        config.offset p < 4294967296 ∧ (config.pixelFormat = .bgrResv8BitPerColor ∨ c.r = c.b)) :=
    fun h p hp => samePicture_of_copyable ht ha hfa hf h hp
  refine ⟨hpixel, fun hall => ?_, fun h p hp => (hpixel h.1 p hp).2 (h.2 p hp)⟩
  have h := copyable_of_all ht ha hfa hf hall
  exact ⟨h, fun p hp => (hpixel h p hp).1 (hall p hp)⟩

/-- White pixels on a screen that expects red first, and a red pixel on one that expects blue first. -/
theorem same_picture_white :
    (∀ p : Vec, Visible (xga .rgbResv8BitPerColor).screenSize ⟨-1, -1⟩ (blank 3 2 (by decide)).size
        ⟨⟨0, 0⟩, ⟨1024, 768⟩⟩ p.x.toInt p.y.toInt →
      (blank 3 2 (by decide)).SamePicture (xga .rgbResv8BitPerColor) ⟨-1, -1⟩ ⟨⟨0, 0⟩, ⟨1024, 768⟩⟩ p ⟨255, 255, 255⟩) ∧
    (blank 3 2 (by decide)).SamePicture (xga .bgrResv8BitPerColor) ⟨-1, -1⟩ ⟨⟨0, 0⟩, ⟨1024, 768⟩⟩ ⟨1, 0⟩ ⟨255, 0, 0⟩ := by
  have hiff := @same_picture_iff (blank 3 2 (by decide))
  have hcop : ∀ format, (blank 3 2 (by decide)).Copyable (xga format) ⟨-1, -1⟩ ⟨⟨0, 0⟩, ⟨1024, 768⟩⟩ := fun format => by
    unfold Copyable
    cases format <;> decide
  refine ⟨(hiff rfl ⟨by decide, by decide⟩ ⟨by decide, by decide⟩ ⟨by decide, by decide⟩).2.2
    ⟨hcop _, fun p hp => ⟨?_, .inr rfl⟩⟩, ?_⟩
  · have hx : p.x.toInt < 1024 := hp.1.1.2
    have hy : p.y.toInt < 768 := hp.1.2.2
    have hs : (xga .rgbResv8BitPerColor).pixelsPerScanLine.toNat = 1024 := rfl
    rw [FrameBufferConfig.offset, hs]
    omega
  · exact ((hiff rfl ⟨by decide, by decide⟩ ⟨by decide, by decide⟩ ⟨by decide, by decide⟩).1 (hcop _) ⟨1, 0⟩
      (by unfold Visible; decide)).2 ⟨by decide, .inl rfl⟩

/-- A red pixel, on a screen that expects red first. -/
theorem same_picture_red : ¬ ∀ (w : Window) (config : FrameBufferConfig) (pos : Vec) (area : Rectangle) (p : Vec) (c :
    PixelColor), w.transparentColor = none → area.Sized → area.Fits → Rectangle.Fits ⟨pos, w.size⟩ →
    Visible config.screenSize pos w.size area p.x.toInt p.y.toInt → w.SamePicture config pos area p c := by
  intro h
  have hp : Visible (xga .rgbResv8BitPerColor).screenSize ⟨0, 0⟩ (blank 1 1 (by decide)).size ⟨⟨0, 0⟩, ⟨1024, 768⟩⟩
      (⟨0, 0⟩ : Vec).x.toInt (⟨0, 0⟩ : Vec).y.toInt := by
    unfold Visible
    decide
  obtain ⟨w', drawn, hw', hd, hsame⟩ := h _ (xga .rgbResv8BitPerColor) ⟨0, 0⟩ ⟨⟨0, 0⟩, ⟨1024, 768⟩⟩ ⟨0, 0⟩ ⟨255, 0, 0⟩ rfl
    ⟨by decide, by decide⟩ ⟨by decide, by decide⟩ ⟨by decide, by decide⟩ hp
  have hboth := hsame (fun _ => 0) fun _ => 0
  cases hw'
  cases hd
  revert hboth
  decide

end Window

end KinOS.Gui
