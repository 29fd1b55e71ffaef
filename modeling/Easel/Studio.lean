import Std.Data.TreeMap
import Easel.Canvas
import Easel.Value

/-!
# Easel.Studio

The robot, with its variables, its brush and the place it stands at, and the canvas it works on.
-/

namespace Easel

structure Robot where
  «variables» : Std.TreeMap String Value := ∅
  brush : Brush := {}
  cursor : Position := ⟨0, 0⟩

def Robot.valueOf? (r : Robot) (name : String) : Option Value := r.variables[name]?

structure Studio where
  robot : Robot := {}
  canvas : Canvas

namespace Studio

/-- A new robot in front of a blank canvas. -/
def blank (size : Number) : Studio := { canvas := { size := size } }

def assign (w : Studio) (name : String) (v : Value) : Studio :=
  { w with robot := { w.robot with «variables» := w.robot.variables.insert name v } }

def moveTo (w : Studio) (p : Position) : Studio :=
  { w with robot := { w.robot with cursor := p } }

def setColor (w : Studio) (c : Color) : Studio :=
  { w with robot := { w.robot with brush := { w.robot.brush with color := c } } }

def setSize (w : Studio) (n : Number) : Studio :=
  { w with robot := { w.robot with brush := { w.robot.brush with size := n } } }

def draw (w : Studio) (s : Stroke) : Studio := { w with canvas := w.canvas.draw s }

end Studio
end Easel
