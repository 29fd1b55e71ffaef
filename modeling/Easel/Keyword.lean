import Easel.Value

/-!
# Easel.Keyword

The words of the language: commands, which act on the robot and the canvas, and queries, which
answer about them inside expressions, with the arguments each of them takes.
-/

namespace Easel

inductive Param where
  | color
  | numeric
deriving DecidableEq, Repr

def Param.text : Param → String
  | .color => "color literal"
  | .numeric => "numeric expression"

inductive Command where
  | spawn
  | color
  | size
  | drawLine
  | drawCircle
  | drawRectangle
  | fill
deriving DecidableEq, Repr

namespace Command

def all : List Command :=
  [.spawn, .color, .size, .drawLine, .drawCircle, .drawRectangle, .fill]

def keyword : Command → String
  | .spawn => "Spawn"
  | .color => "Color"
  | .size => "Size"
  | .drawLine => "DrawLine"
  | .drawCircle => "DrawCircle"
  | .drawRectangle => "DrawRectangle"
  | .fill => "Fill"

def params : Command → List Param
  | .spawn => [.numeric, .numeric]
  | .color => [.color]
  | .size => [.numeric]
  | .drawLine => [.numeric, .numeric, .numeric]
  | .drawCircle => [.numeric, .numeric, .numeric]
  | .drawRectangle => [.numeric, .numeric, .numeric, .numeric, .numeric]
  | .fill => []

def ofKeyword? (word : String) : Option Command :=
  all.find? fun c => c.keyword == word

theorem ofKeyword?_keyword (c : Command) : ofKeyword? c.keyword = some c := by
  cases c <;> decide

end Command

inductive Query where
  | actualX
  | actualY
  | canvasSize
  | colorCount
  | isBrushColor
  | isBrushSize
  | isCanvasColor
deriving DecidableEq, Repr

namespace Query

def all : List Query :=
  [.actualX, .actualY, .canvasSize, .colorCount, .isBrushColor, .isBrushSize, .isCanvasColor]

def keyword : Query → String
  | .actualX => "GetActualX"
  | .actualY => "GetActualY"
  | .canvasSize => "GetCanvasSize"
  | .colorCount => "GetColorCount"
  | .isBrushColor => "IsBrushColor"
  | .isBrushSize => "IsBrushSize"
  | .isCanvasColor => "IsCanvasColor"

def params : Query → List Param
  | .actualX | .actualY | .canvasSize => []
  | .colorCount => [.color, .numeric, .numeric, .numeric, .numeric]
  | .isBrushColor => [.color]
  | .isBrushSize => [.numeric]
  | .isCanvasColor => [.color, .numeric, .numeric]

/-- The type of the answer. -/
def ty : Query → Ty
  | .actualX | .actualY | .canvasSize | .colorCount => .number
  | .isBrushColor | .isBrushSize | .isCanvasColor => .boolean

def ofKeyword? (word : String) : Option Query :=
  all.find? fun q => q.keyword == word

theorem ofKeyword?_keyword (q : Query) : ofKeyword? q.keyword = some q := by
  cases q <;> decide

end Query
end Easel
