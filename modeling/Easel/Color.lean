/-!
# Easel.Color

The palette. Programs name a color by a string literal, and names are case sensitive.
-/

namespace Easel

inductive Color where
  | red
  | blue
  | green
  | yellow
  | purple
  | black
  | white
  | grey
  | transparent
deriving DecidableEq, Repr

namespace Color

/-- Every color, in palette order. -/
def palette : List Color :=
  [.red, .blue, .green, .yellow, .purple, .black, .white, .grey, .transparent]

def name : Color → String
  | .red => "Red"
  | .blue => "Blue"
  | .green => "Green"
  | .yellow => "Yellow"
  | .purple => "Purple"
  | .black => "Black"
  | .white => "White"
  | .grey => "Grey"
  | .transparent => "Transparent"

def ofName? (s : String) : Option Color :=
  palette.find? fun c => c.name == s

/-- The place of a color in the palette, counted from zero. -/
def index (c : Color) : Nat := palette.idxOf c

theorem mem_palette (c : Color) : c ∈ palette := by
  cases c <;> decide

theorem ofName?_name (c : Color) : ofName? c.name = some c := by
  cases c <;> decide

end Color
end Easel
