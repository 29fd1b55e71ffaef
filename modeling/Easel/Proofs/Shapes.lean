import Easel.Proofs.Effects

/-!
# Easel.Proofs.Shapes

What an expression passes for, and what it comes to. Numbers and booleans are kept apart: nothing
but a variable passes for both, and nothing but a variable can come to a number in one studio and to
a boolean in another (`Expr.shapes_apart`).

* `UnaryOp.ty_of_apply`, `BinaryOp.ty_of_apply`, `Query.ty_of_answer`: an operation that has a
  result has one of its own type, whatever it was applied to.
* `Expr.resultTy?`: the type that the outermost operation gives. It is the type of any value
  (`Expr.resultTy?_of_eval`) and the only one to pass for (`Expr.resultTy?_of_passes`), so a test
  for a type can be wrong about a variable only (`Expr.ty_of_eval`).
-/

namespace Easel

/-! ## Results of operations -/

theorem UnaryOp.ty_of_apply {op : UnaryOp} {a v : Value} (h : op.apply a = .ok v) :
    v.ty = op.ty := by
  cases op with
  | neg =>
    cases a with
    | number n =>
      obtain ⟨m, _, hv⟩ := except_bind_ok_iff.mp h
      cases hv
      rfl
    | bool b => cases h
  | not =>
    cases a with
    | number n => cases h
    | bool b =>
      cases h
      rfl

theorem BinaryOp.ty_of_apply {op : BinaryOp} {a b v : Value} (h : op.apply a b = .ok v) :
    v.ty = op.ty := by
  unfold apply at h
  split at h
  · obtain ⟨m, _, hv⟩ := except_bind_ok_iff.mp h
    cases hv
    rfl
  · cases h; rfl
  · cases h; rfl
  · cases h; rfl
  · cases h; rfl
  · cases h

theorem Query.ty_of_answer {w : Studio} {q : Query} {args : List Argument} {v : Value}
    (h : q.answer w args = .ok v) : v.ty = q.ty := by
  by_cases hlen : args.length = q.params.length
  · -- Whatever the arguments are, with any fault allowed they are good ones.
    have hargs : List.Forall₂ (Param.Accepts (fun _ => True) q.keyword) q.params args := by
      refine List.forall₂_iff_zip.mpr ⟨hlen.symm, @fun p a _ => ?_⟩
      cases p with
      | color => exact .any _
      | numeric => exact .any _
    have hends : Ends (fun _ => True) (fun v => v.ty = q.ty) (q.answer w args) := answer_ends hargs
    rw [h] at hends
    exact hends
  · rw [answer_of_length_ne hlen] at h
    cases h

/-! ## Variables -/

theorem Studio.valueOf?_assign (w : Studio) (x : String) (v : Value) :
    (w.assign x v).robot.valueOf? x = some v := by
  simp [Studio.assign, Robot.valueOf?]

namespace Expr

/-- The expression is a variable, maybe in parentheses. -/
def isVariable : Expr → Bool
  | .var _ => true
  | .group e => e.isVariable
  | _ => false

theorem passes_of_isVariable {e : Expr} (place : Place) (t : Ty) (h : e.isVariable = true) :
    e.Passes place t := by
  induction e using Expr.induct with
  | var x => cases t <;> rfl
  | group e ih => exact passes_group_iff.mpr (ih h)
  | _ => cases h

/-- A variable passes for a number. -/
theorem shape?_of_isVariable {e : Expr} (place : Place) (h : e.isVariable = true) :
    e.shape? place = some .number := by
  have hn : e.isNumeric place = true := passes_of_isVariable place .number h
  simp [shape?, hn]

/-- A variable can come to anything. -/
theorem exists_eval_of_isVariable {e : Expr} (h : e.isVariable = true) (v : Value) :
    ∃ w, e.eval w = .ok v := by
  induction e using Expr.induct with
  | var x =>
    refine ⟨(Studio.blank 0).assign x v, ?_⟩
    rw [eval_var, Studio.valueOf?_assign]
  | group e ih =>
    obtain ⟨w, hw⟩ := ih h
    exact ⟨w, by rw [eval_group, hw]⟩
  | _ => cases h

/-! ## Everything else -/

/-- The type that the outermost operation gives, which is looked for through parentheses. A variable
has none, and a string has no value. -/
def resultTy? : Expr → Option Ty
  | .number _ => some .number
  | .bool _ => some .boolean
  | .text _ => none
  | .var _ => none
  | .unary op _ => some op.ty
  | .binary _ op _ => some op.ty
  | .group e => e.resultTy?
  | .call q _ => some q.ty

theorem resultTy?_of_eval {e : Expr} {w : Studio} {v : Value} (hx : e.isVariable = false)
    (h : e.eval w = .ok v) : e.resultTy? = some v.ty := by
  -- Only the outermost operation matters; groups are looked through to it.
  induction e using Expr.induct with
  | number n => cases h; rfl
  | bool b => cases h; rfl
  | text s => cases h
  | var x => cases hx
  | unary op e _ =>
    rw [eval_unary] at h
    obtain ⟨a, _, ha⟩ := except_bind_ok_iff.mp h
    rw [resultTy?, UnaryOp.ty_of_apply ha]
  | binary l op r _ _ =>
    rw [eval_binary] at h
    obtain ⟨a, _, h⟩ := except_bind_ok_iff.mp h
    obtain ⟨_, _, h⟩ := except_bind_ok_iff.mp h
    obtain ⟨b, _, h⟩ := except_bind_ok_iff.mp h
    rw [resultTy?, BinaryOp.ty_of_apply h]
  | group e ih =>
    rw [eval_group] at h
    exact ih hx h
  | call q args _ =>
    rw [eval_call] at h
    rw [resultTy?, Query.ty_of_answer h]

theorem resultTy?_of_passes {e : Expr} {place : Place} {t : Ty} (hx : e.isVariable = false)
    (hp : e.Passes place t) : e.resultTy? = some t := by
  induction e using Expr.induct with
  | number n =>
    cases t with
    | number => rfl
    | boolean => cases hp
  | bool b =>
    cases t with
    | number => cases hp
    | boolean => rfl
  | text s => exact absurd hp not_passes_text
  | var x => cases hx
  | unary op e _ =>
    obtain ⟨rfl, _⟩ := passes_unary_iff.mp hp
    rfl
  | binary l op r _ _ =>
    obtain ⟨rfl, _⟩ := passes_binary_iff.mp hp
    rfl
  | group e ih => exact ih hx (passes_group_iff.mp hp)
  | call q args _ =>
    obtain ⟨_, rfl⟩ := passes_call_iff.mp hp
    rfl

/-- What is not a variable has a value of the type that it passes for, whatever the values of the
variables in it. -/
theorem ty_of_eval {e : Expr} {place : Place} {t : Ty} {w : Studio} {v : Value}
    (hx : e.isVariable = false) (hp : e.Passes place t) (h : e.eval w = .ok v) : v.ty = t := by
  have hty := resultTy?_of_eval hx h
  rw [resultTy?_of_passes hx hp] at hty
  exact (Option.some.inj hty).symm

theorem passes_both_iff {e : Expr} {place : Place} :
    e.Passes place .number ∧ e.Passes place .boolean ↔ e.isVariable = true := by
  constructor
  · rintro ⟨hn, hb⟩
    cases hx : e.isVariable with
    | true => rfl
    | false =>
      have hty : some Ty.number = some Ty.boolean :=
        (resultTy?_of_passes hx hn).symm.trans (resultTy?_of_passes hx hb)
      cases hty
  · intro hx
    exact ⟨passes_of_isVariable place .number hx, passes_of_isVariable place .boolean hx⟩

/-- Wherever an expression stands, it passes both for a number and for a boolean exactly if it is a
variable. And exactly if it is not, the type of its value depends on the expression alone, in
whatever studio it has one. -/
theorem shapes_apart (e : Expr) :
    (∀ place, e.isNumeric place = true ∧ e.isBoolean place = true ↔ e.isVariable = true) ∧
      ((∃ t, ∀ w v, e.eval w = .ok v → v.ty = t) ↔ e.isVariable = false) := by
  refine ⟨fun place => passes_both_iff, ?_⟩
  constructor
  · rintro ⟨t, ht⟩
    cases hx : e.isVariable with
    | false => rfl
    | true =>
      obtain ⟨w, hw⟩ := exists_eval_of_isVariable hx (.number 0)
      obtain ⟨w', hw'⟩ := exists_eval_of_isVariable hx (.bool true)
      have hty : Ty.number = Ty.boolean := (ht w _ hw).trans (ht w' _ hw').symm
      cases hty
  · intro hx
    refine ⟨e.resultTy?.getD .number, fun w v hv => ?_⟩
    rw [resultTy?_of_eval hx hv, Option.getD_some]

/-- A comparison of two variables passes for a boolean only, and is one whether the variables are
numbers or booleans. -/
theorem shapes_apart_in_comparison :
    ∃ (e : Expr) (w w' : Studio), e = .group (.binary (.var "x") (.equality .eq) (.var "y")) ∧
      e.isVariable = false ∧
      ¬ (e.isNumeric .control = true ∧ e.isBoolean .control = true) ∧
      w.robot.valueOf? "x" = some (.number 1) ∧ w'.robot.valueOf? "x" = some (.bool true) ∧
      (∃ v v', e.eval w = .ok v ∧ e.eval w' = .ok v' ∧ v.ty = v'.ty) := by
  let e : Expr := .group (.binary (.var "x") (.equality .eq) (.var "y"))
  let w : Studio := ((Studio.blank 4).assign "x" (.number 1)).assign "y" (.number 2)
  let w' : Studio := ((Studio.blank (-1)).assign "x" (.bool true)).assign "y" (.bool true)
  have hw : e.eval w = .ok (.bool false) := rfl
  have hw' : e.eval w' = .ok (.bool true) := rfl
  obtain ⟨hboth, hty⟩ := shapes_apart e
  obtain ⟨t, ht⟩ := hty.mpr rfl
  have hnot : ¬ (e.isNumeric .control = true ∧ e.isBoolean .control = true) := by
    rw [hboth]
    decide
  exact ⟨e, w, w', rfl, rfl, hnot, rfl, rfl, _, _, hw, hw', (ht w _ hw).trans (ht w' _ hw').symm⟩

end Expr
end Easel
