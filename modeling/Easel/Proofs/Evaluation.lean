import Easel.Expr.Eval

/-!
# Easel.Proofs.Evaluation

Evaluation by plain recursion. `Expr.eval` walks down the left operands of a chain and lets the
operators wait in a list; `Expr.denote` follows the tree and nothing else. The two agree on every
tree, in value and in fault (`eval_eq_denote`), so a chain of any length and any mix of operators
stops at the operand or operator where the recursion stops.

* `evalOnto_eq`: the operators that wait play no part until the value is there.
* `BinaryOp.checkLeft_eq_ok_iff`, `BinaryOp.checkLeft_eq_error_iff`: which left operands an operator
  lets pass, and what it says of the others.
* `eval_unary`, `eval_binary`, `eval_group`, `eval_call`: the equations of evaluation. Everything
  else about it is proved from them.
-/

namespace Easel

namespace BinaryOp

variable {op : BinaryOp} {a : Value}

theorem checkLeft_eq_ok_iff :
    op.checkLeft a = .ok () ↔ ∀ ty, op.operandTy? = some ty → a.ty = ty := by
  unfold checkLeft
  cases op.operandTy? <;> simp

theorem checkLeft_eq_error_iff {f : RunFault} :
    op.checkLeft a = .error f ↔
      ∃ ty, op.operandTy? = some ty ∧ a.ty ≠ ty ∧ f = .typeMismatch op.context ty a.ty := by
  unfold checkLeft
  cases op.operandTy? with
  | none => simp
  | some ty => by_cases h : a.ty = ty <;> simp [h, @eq_comm _ f]

end BinaryOp

namespace Expr

/-- The operators that wait are fed with the value and with nothing else. -/
theorem evalOnto_eq (w : Studio) (e : Expr) :
    ∀ waiting : List Pending, e.evalOnto w waiting = (e.eval w >>= Pending.resume waiting) := by
  induction e using Expr.induct with
  | number n => intro waiting; rfl
  | bool b => intro waiting; rfl
  | text s => intro waiting; rfl
  | var x =>
    intro waiting
    simp only [eval, evalOnto]
    split <;> rfl
  | unary op e ih =>
    intro waiting
    simp only [eval, evalOnto, Pending.resume, bind_assoc]
    rfl
  | binary l op r ihl ihr =>
    intro waiting
    simp only [eval, evalOnto]
    rw [ihl, ihl]
    simp only [Pending.resume, bind_assoc]
    rfl
  | group e ih =>
    intro waiting
    simp only [eval, evalOnto, Pending.resume, bind_assoc]
    rfl
  | call q args ih =>
    intro waiting
    simp only [eval, evalOnto, Pending.resume, bind_assoc]
    rfl

theorem eval_var (w : Studio) (x : String) :
    eval w (.var x) =
      match w.robot.valueOf? x with
      | some v => .ok v
      | none => .error (.undefinedVariable x) := rfl

theorem eval_unary (w : Studio) (op : UnaryOp) (e : Expr) :
    eval w (.unary op e) = (e.eval w >>= op.apply) := by
  simp only [eval, evalOnto, Pending.resume]
  exact bind_congr fun v => bind_pure (op.apply v)

/-- The left operand, its check, the right operand, the operator, in this order. -/
theorem eval_binary (w : Studio) (l : Expr) (op : BinaryOp) (r : Expr) :
    eval w (.binary l op r) = (do
      let a ← l.eval w
      op.checkLeft a
      let b ← r.eval w
      op.apply a b) := by
  simp only [eval, evalOnto]
  rw [evalOnto_eq]
  refine bind_congr fun a => bind_congr fun _ => bind_congr fun b => ?_
  exact bind_pure (op.apply a b)

theorem eval_group (w : Studio) (e : Expr) : eval w (.group e) = e.eval w := by
  simp only [eval, evalOnto, Pending.resume]
  exact bind_pure (evalOnto w e [])

theorem argumentsOf_eq_map (w : Studio) (args : List Expr) :
    argumentsOf w args = args.map fun e => ⟨e.text?, e.eval w⟩ := by
  induction args with
  | nil => rfl
  | cons e es ih => rw [argumentsOf, ih]; rfl

theorem eval_call (w : Studio) (q : Query) (args : List Expr) :
    eval w (.call q args) = q.answer w (args.map fun e => ⟨e.text?, e.eval w⟩) := by
  rw [← argumentsOf_eq_map]
  simp only [eval, evalOnto, Pending.resume]
  exact bind_pure (q.answer w (argumentsOf w args))

/-! ## The plain recursion -/

mutual

/-- The value of an expression by recursion on the tree. Both operands of every binary operator are
evaluated, and the left one is checked before the right one is. -/
def denote (w : Studio) : Expr → Except RunFault Value
  | .number n => .ok (.number n)
  | .bool b => .ok (.bool b)
  | .text _ => .error .unexpectedString
  | .var x =>
    match w.robot.valueOf? x with
    | some v => .ok v
    | none => .error (.undefinedVariable x)
  | .unary op e =>
    match denote w e with
    | .error f => .error f
    | .ok v => op.apply v
  | .binary l op r =>
    match denote w l with
    | .error f => .error f
    | .ok a =>
      match op.checkLeft a with
      | .error f => .error f
      | .ok () =>
        match denote w r with
        | .error f => .error f
        | .ok b => op.apply a b
  | .group e => denote w e
  | .call q args => q.answer w (denoteArguments w args)

def denoteArguments (w : Studio) : List Expr → List Argument
  | [] => []
  | e :: es => ⟨e.text?, denote w e⟩ :: denoteArguments w es

end

theorem denoteArguments_eq {w : Studio} {args : List Expr}
    (h : ∀ e ∈ args, e.eval w = e.denote w) :
    denoteArguments w args = args.map fun e => ⟨e.text?, e.eval w⟩ := by
  induction args with
  | nil => rfl
  | cons e es ih =>
    simp only [denoteArguments, List.map_cons]
    rw [h e (by simp), ih fun x hx => h x (by simp [hx])]

/-- Letting the operators of a chain wait changes neither the value nor the fault. -/
theorem eval_eq_denote (w : Studio) (e : Expr) : e.eval w = e.denote w := by
  induction e using Expr.induct with
  | number n => rfl
  | bool b => rfl
  | text s => rfl
  | var x => rfl
  | unary op e ih =>
    rw [eval_unary, ih, denote]
    cases e.denote w <;> rfl
  | binary l op r ihl ihr =>
    rw [eval_binary, ihl, ihr, denote]
    cases l.denote w with
    | error f => rfl
    | ok a =>
      cases hc : op.checkLeft a with
      | error f => simp only [bind, Except.bind, hc]
      | ok u =>
        simp only [bind, Except.bind, hc]
        cases r.denote w <;> rfl
  | group e ih => rw [eval_group, ih, denote]
  | call q args ih => rw [eval_call, denote, denoteArguments_eq ih]

/-- A chain stops at the first operator that does not take what stands on its left: neither the
variable, which has no value, nor the text is looked at. -/
example :
    eval (.blank 4)
        (.binary (.binary (.binary (.number 1) (.order .lt) (.number 2)) (.arith .add) (.var "x"))
          (.arith .sub) (.text "Red")) =
      .error (.typeMismatch "`+`" .number .boolean) := by
  rfl

end Expr
end Easel
