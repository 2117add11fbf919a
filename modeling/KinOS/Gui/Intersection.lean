import KinOS.Gui.Clipping

/-!
# The algebra of `&`

| here | there |
| --- | --- |
| `Area`, `&&&`              | `Rectangle<int>` and its `operator&` (`libs/common/template.hpp:53-75`) |
| `Clip`                     | an expression such as `frame_buffer_outline & shadow_buffer_outline & copy_area_shifted` (`shadow_buffer.cpp:42-50`) |

An area is a rectangle with no negative length whose ends are `int`s. Areas are closed under `&`, and the pixels of `a & b`
are those of `a` and `b`: this is so for the empty rectangle at the origin, which stands for two areas that lie apart, as
well as for the empty rectangles that stand for two areas that touch. An expression then has the pixels that all its areas
have, however it is put together.
-/

namespace KinOS.Gui

open Rectangle

structure Area where
  rect : Rectangle
  sized : rect.Sized
  fits : rect.Fits

namespace Area

variable {a b : Area} {p : Vec}

def pixels (a : Area) : Set Vec := {p | a.rect.Covers p}

instance : AndOp Area := ⟨fun a b => ⟨a.rect.inter b.rect, inter_sized a.sized b.sized, inter_fits a.sized b.sized⟩⟩

/-- A pixel of `a & b` is a pixel of both. -/
theorem and_covers : (a.rect.inter b.rect).Covers p ↔ a.rect.Covers p ∧ b.rect.Covers p := by
  constructor
  · intro h
    exact covers_of_inter a.sized b.sized h
  · rintro ⟨ha, hb⟩
    exact inter_covers a.sized b.sized a.fits b.fits ha hb

@[simp] theorem pixels_and (a b : Area) : (a &&& b).pixels = a.pixels ∩ b.pixels := by
  ext p
  exact and_covers

end Area

/-- An expression made of areas and `&`. -/
inductive Clip
  | area (a : Area)
  | and (l r : Clip)

namespace Clip

def eval : Clip → Area
  | area a => a
  | and l r => l.eval &&& r.eval

/-- The areas of an expression, from left to right. -/
def areas : Clip → List Area
  | area a => [a]
  | and l r => l.areas ++ r.areas

variable {t u : Clip}

theorem pixels_eval (t : Clip) : t.eval.pixels = {p | ∀ a ∈ t.areas, p ∈ a.pixels} := by
  induction t with
  | area a =>
    ext p
    simp [eval, areas]
  | and l r ihl ihr =>
    rw [eval, Area.pixels_and, ihl, ihr]
    ext p
    simp only [areas, List.mem_append, Set.mem_inter_iff, Set.mem_ofPred_eq]
    constructor
    · rintro ⟨hl, hr⟩ a (ha | ha)
      · exact hl a ha
      · exact hr a ha
    · intro h
      exact ⟨fun a ha => h a (.inl ha), fun a ha => h a (.inr ha)⟩

/-- Neither the order nor the grouping matters, nor how often an area occurs. -/
theorem pixels_congr (h : ∀ a, a ∈ t.areas ↔ a ∈ u.areas) : t.eval.pixels = u.eval.pixels := by
  rw [pixels_eval, pixels_eval]
  ext p
  simp only [Set.mem_ofPred_eq, h]

end Clip

namespace Area

/-- **`&` is the conjunction of what its sides cover**: its result is a rectangle with no negative length, and three areas
have the same pixels in common in whatever order and grouping they are put together. -/
theorem and_pixelwise (a b c : Area) :
    (∀ p, (a.rect.inter b.rect).Covers p ↔ a.rect.Covers p ∧ b.rect.Covers p) ∧ (a.rect.inter b.rect).Sized ∧
      ∀ t u : Clip, t.areas.Perm [a, b, c] → u.areas.Perm [a, b, c] → ∀ p, t.eval.rect.Covers p ↔ u.eval.rect.Covers p := by
  refine ⟨fun p => and_covers, inter_sized a.sized b.sized, fun t u ht hu p => ?_⟩
  have hmem : ∀ d, d ∈ t.areas ↔ d ∈ u.areas := fun d => ht.mem_iff.trans hu.mem_iff.symm
  exact Set.ext_iff.1 (Clip.pixels_congr hmem) p

/-- Two areas that touch, and one that lies apart: `a & b` is empty at `(2, 0)`, `b & c` and `c & a` at the origin. -/
theorem and_pixelwise_touching : ∃ a b c : Area, a.rect = ⟨⟨0, 0⟩, ⟨2, 2⟩⟩ ∧ b.rect = ⟨⟨2, 0⟩, ⟨2, 2⟩⟩ ∧
    c.rect = ⟨⟨-5, 9⟩, ⟨1, 1⟩⟩ ∧ (a &&& b).rect = ⟨⟨2, 0⟩, ⟨0, 2⟩⟩ ∧ (c &&& a).rect = ⟨⟨0, 0⟩, ⟨0, 0⟩⟩ ∧
    ∀ p, ((a &&& b) &&& c).rect.Covers p ↔ ((c &&& a) &&& b).rect.Covers p := by
  refine ⟨⟨⟨⟨0, 0⟩, ⟨2, 2⟩⟩, by unfold Sized; decide, by unfold Fits; decide⟩,
    ⟨⟨⟨2, 0⟩, ⟨2, 2⟩⟩, by unfold Sized; decide, by unfold Fits; decide⟩,
    ⟨⟨⟨-5, 9⟩, ⟨1, 1⟩⟩, by unfold Sized; decide, by unfold Fits; decide⟩, rfl, rfl, rfl, by decide, by decide, ?_⟩
  exact (and_pixelwise _ _ _).2.2 (.and (.and (.area _) (.area _)) (.area _)) (.and (.and (.area _) (.area _)) (.area _))
    (List.Perm.refl _) (List.perm_append_comm : ([_] ++ [_, _]).Perm ([_, _] ++ [_]))

end Area

end KinOS.Gui
