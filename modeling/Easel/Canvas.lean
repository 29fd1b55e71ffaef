import Easel.Color
import Easel.Number

/-!
# Easel.Canvas

A square canvas that keeps the strokes made on it, in order, and paints no pixels: whatever was
drawn, it is looked at as blank and white.
-/

namespace Easel

structure Position where
  x : Number
  y : Number
deriving DecidableEq, Repr

/-- The position `distance` steps away in a direction, unless a product or a sum on the way there
leaves 64 bits. -/
def Position.step? (p : Position) (dx dy distance : Number) : Option Position :=
  match dx.mul? distance with
  | none => none
  | some mx =>
    match p.x.add? mx with
    | none => none
    | some x =>
      match dy.mul? distance with
      | none => none
      | some my =>
        match p.y.add? my with
        | none => none
        | some y => some ⟨x, y⟩

structure Brush where
  color : Color := .transparent
  size : Number := 1
deriving DecidableEq, Repr

inductive Stroke where
  | line (start stop : Position) (brush : Brush)
  | circle (center : Position) (radius : Number) (brush : Brush)
  | rectangle (center : Position) (width height : Number) (brush : Brush)
  | fill (start : Position) (brush : Brush)
deriving DecidableEq, Repr

structure Canvas where
  /-- The side of the square. Nothing lies on a canvas whose side is not positive. -/
  size : Number
  strokes : Array Stroke := #[]
deriving DecidableEq, Repr

namespace Canvas

def draw (c : Canvas) (s : Stroke) : Canvas := { c with strokes := c.strokes.push s }

def contains (c : Canvas) (p : Position) : Bool :=
  decide (0 ≤ p.x ∧ p.x < c.size ∧ 0 ≤ p.y ∧ p.y < c.size)

/-- The color seen at a position of the canvas. -/
def pixel? (c : Canvas) (p : Position) : Option Color :=
  if c.contains p then some .white else none

/-- How many pixels of a color the rectangle between two corners shows, or the largest number if
there are more. Both corners lie on the canvas, so the sides of the rectangle cannot wrap. -/
def colorCount (c : Canvas) (color : Color) (p q : Position) : Number :=
  if color = .white ∧ c.contains p ∧ c.contains q then
    let width : Number := (p.x - q.x).abs + 1
    let height : Number := (p.y - q.y).abs + 1
    (width.mul? height).getD Int64.maxValue
  else 0

end Canvas
end Easel
