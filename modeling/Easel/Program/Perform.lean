import Easel.Expr.Eval
import Easel.Program

/-!
# Easel.Program.Perform

Carrying out one statement. A task works on the studio and may fail; what it has done by then
stays done, so a task checks everything it can before it touches anything.
-/

namespace Easel

abbrev Task := EStateM RunFault Studio

/-- Goes on with a result, or fails with its fault. -/
def Task.of {α : Type} : Except RunFault α → Task α
  | .ok a => return a
  | .error f => throw f

namespace Argument

/-- A direction, each part of which is -1, 0 or 1. -/
def direction (command : String) (dx dy : Argument) : Except RunFault (Number × Number) := do
  let dx ← dx.number command
  let dy ← dy.number command
  if -1 ≤ dx ∧ dx ≤ 1 ∧ -1 ≤ dy ∧ dy ≤ 1 then return (dx, dy)
  else .error (.invalidDirection command dx dy)

/-- A length, which is not negative. -/
def length (command what : String) (a : Argument) : Except RunFault Number := do
  let n ← a.number command
  if n < 0 then .error (.negativeLength command what n) else return n

end Argument

/-- The place the robot comes to when it goes `distance` steps in a direction. -/
def Robot.ahead (r : Robot) (direction : Number × Number) (distance : Number) :
    Except RunFault Position :=
  match r.cursor.step? direction.1 direction.2 distance with
  | some p => .ok p
  | none => .error .overflow

namespace Command

/-- Carries out a command, if it is given as many arguments as it takes. -/
def perform (c : Command) (args : List Argument) : Task Unit :=
  match c, args with
  | .spawn, [x, y] => do
    let p ← Task.of (Argument.position c.keyword x y)
    let w ← get
    if w.canvas.contains p then set (w.moveTo p)
    else throw (.outOfCanvas p.x p.y w.canvas.size)
  | .color, [a] => do
    let hue ← Task.of a.color
    modify fun w => w.setColor hue
  | .size, [a] => do
    let n ← Task.of (a.number c.keyword)
    if n ≤ 0 then throw (.invalidBrushSize n)
    else modify fun w => w.setSize n
  | .drawLine, [dx, dy, distance] => do
    let direction ← Task.of (Argument.direction c.keyword dx dy)
    let distance ← Task.of (distance.length c.keyword "distance")
    let w ← get
    let stop ← Task.of (w.robot.ahead direction distance)
    modify fun w => w.draw (.line w.robot.cursor stop w.robot.brush)
    modify fun w => w.moveTo stop
  | .drawCircle, [dx, dy, radius] => do
    let direction ← Task.of (Argument.direction c.keyword dx dy)
    let radius ← Task.of (radius.length c.keyword "radius")
    let w ← get
    let center ← Task.of (w.robot.ahead direction radius)
    modify fun w => w.draw (.circle center radius w.robot.brush)
    modify fun w => w.moveTo center
  | .drawRectangle, [dx, dy, distance, width, height] => do
    let direction ← Task.of (Argument.direction c.keyword dx dy)
    let distance ← Task.of (distance.length c.keyword "distance")
    let width ← Task.of (width.length c.keyword "width")
    let height ← Task.of (height.length c.keyword "height")
    let w ← get
    let center ← Task.of (w.robot.ahead direction distance)
    modify fun w => w.draw (.rectangle center width height w.robot.brush)
    modify fun w => w.moveTo center
  | .fill, [] => modify fun w => w.draw (.fill w.robot.cursor w.robot.brush)
  | _, _ => throw (.argumentCount c.keyword c.params.length args.length)

end Command

/-- Where a program goes on after a statement. -/
inductive Flow where
  | next
  | jump (label : String)
deriving DecidableEq, Repr

namespace Action

def perform : Action → Task Flow
  | .assign x _ e => do
    let v ← Task.of (e.eval (← get))
    modify fun w => w.assign x v
    return .next
  | .command c args => do
    c.perform (Expr.argumentsOf (← get) args)
    return .next
  | .label _ => return .next
  | .goTo l e => do
    match ← Task.of (e.eval (← get)) with
    | .bool true => return .jump l
    | .bool false => return .next
    | .number _ => throw (.typeMismatch ("GoTo [" ++ l ++ "]") .boolean .number)
  | .discard e => do
    let _ ← Task.of (e.eval (← get))
    return .next

end Action

/-- Carries out a statement; a fault is reported on its line. -/
def Stmt.perform (s : Stmt) : EStateM Diagnostic Studio Flow :=
  s.action.perform.adaptExcept fun f => ⟨s.line, .run f⟩

end Easel
