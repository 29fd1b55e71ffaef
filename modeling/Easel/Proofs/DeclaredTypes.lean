import Easel.Proofs.History
import Easel.Proofs.Shapes

/-!
# Easel.Proofs.DeclaredTypes

An assignment is declared with the type that its expression passes for, before any variable has a
value. The declared type is the type of the value, each time the assignment completes, unless the
expression is nothing but a variable (`Program.declared_types_hold`): then it is declared a number,
and stores whatever the variable is.

* `Program.Steps.perform_of_mem`: what stands in a history has completed.
* `Stmt.stores_of_perform`: an assignment that completes stores the value of its expression.
-/

namespace Easel

/-- Every statement of a history is one of the program and has completed. -/
theorem Program.Steps.perform_of_mem {p : Program} {t : LabelTable} {c c' : Config}
    {history : List Deed} (h : Steps p t c history c') :
    ∀ d ∈ history, d.stmt ∈ p ∧ ∃ f w', d.stmt.perform d.before = .ok f w' := by
  induction h with
  | refl => intro d hd; cases hd
  | cons hs hstep _ ih =>
    intro d hd
    rcases List.mem_cons.mp hd with rfl | hd
    · obtain ⟨f, hf⟩ := perform_of_step hs hstep
      exact ⟨List.mem_of_getElem? hs, f, _, hf⟩
    · exact ih d hd

/-- An assignment that completes stores the value of its expression. -/
theorem Stmt.stores_of_perform {s : Stmt} {x : String} {ty : Ty} {e : Expr} {w w' : Studio}
    {f : Flow} (hs : s.action = .assign x ty e) (h : s.perform w = .ok f w') :
    ∃ v, e.eval w = .ok v ∧ w'.robot.valueOf? x = some v := by
  obtain ⟨ev, hd, rfl⟩ := perform_ok_iff.mp h
  rw [hs] at hd
  cases hd with
  | @assign _ _ _ v he => exact ⟨v, he, w.valueOf?_assign x v⟩

/-- Each time an assignment of a parsed program completes, the value that it stores is of the
declared type, unless the expression is a variable; and an expression that is a variable is declared
a number. So what is declared a boolean is one. -/
theorem Program.declared_types_hold {ts : List Token} {p : Program} (h : parse ts = .ok p)
    {t : LabelTable} {w : Studio} {history : List Deed} {c : Config}
    (hrun : Steps p t ⟨0, w⟩ history c) :
    ∀ d ∈ history, ∀ x ty e, d.stmt.action = .assign x ty e →
      ∃ f w' v, d.stmt.perform d.before = .ok f w' ∧ w'.robot.valueOf? x = some v ∧
        (e.isVariable = false → v.ty = ty) ∧ (e.isVariable = true → ty = .number) ∧
        (ty = .boolean → v.ty = .boolean) := by
  intro d hd x ty e ha
  obtain ⟨hmem, f, w', hf⟩ := hrun.perform_of_mem d hd
  obtain ⟨v, he, hv⟩ := Stmt.stores_of_perform ha hf
  have hvet := vetted_of_parse h d.stmt hmem
  rw [ha] at hvet
  cases hvet with
  | assign _ hty =>
    have hvalue : e.isVariable = false → v.ty = ty :=
      fun hx => Expr.ty_of_eval hx (Expr.passes_of_shape? hty) he
    have hvar : e.isVariable = true → ty = .number := by
      intro hx
      rw [Expr.shape?_of_isVariable .value hx] at hty
      exact (Option.some.inj hty).symm
    refine ⟨f, w', v, hf, hv, hvalue, hvar, ?_⟩
    rintro rfl
    cases hx : e.isVariable with
    | false => exact hvalue hx
    | true => cases hvar hx

/-- The first assignment puts a boolean where a number is declared, for its expression is a variable
in parentheses; the second one compares the two variables and is declared what it is. -/
theorem Program.declared_types_hold_for_comparison :
    ∃ (ts : List Token) (p : Program) (w : Studio) (c : Config) (first second : Deed),
      parse ts = .ok p ∧ Steps p p.table ⟨0, w⟩ [first, second] c ∧
      first.stmt.action = .assign "c" .number (.group (.var "b")) ∧
      c.studio.robot.valueOf? "c" = some (.bool true) ∧
      second.stmt.action = .assign "d" .boolean (.binary (.var "c") (.equality .eq) (.var "b")) ∧
      ∃ f w' v, second.stmt.perform second.before = .ok f w' ∧ w'.robot.valueOf? "d" = some v ∧
        v.ty = .boolean := by
  let ts : List Token :=
    [⟨.name "c", "c", 1⟩, ⟨.arrow, "<-", 1⟩, ⟨.openParen, "(", 1⟩, ⟨.name "b", "b", 1⟩,
      ⟨.closeParen, ")", 1⟩, ⟨.newLine, "\n", 1⟩, ⟨.name "d", "d", 2⟩, ⟨.arrow, "<-", 2⟩,
      ⟨.name "c", "c", 2⟩, ⟨.operator (.equality .eq), "==", 2⟩, ⟨.name "b", "b", 2⟩]
  let s₁ : Stmt := ⟨1, .assign "c" .number (.group (.var "b"))⟩
  let s₂ : Stmt := ⟨2, .assign "d" .boolean (.binary (.var "c") (.equality .eq) (.var "b"))⟩
  let w₀ : Studio := (Studio.blank 8).assign "b" (.bool true)
  let w₁ : Studio := w₀.assign "c" (.bool true)
  let w₂ : Studio := w₁.assign "d" (.bool true)
  have hp : parse ts = .ok [s₁, s₂] := rfl
  have hrun : Steps [s₁, s₂] (table [s₁, s₂]) ⟨0, w₀⟩ [⟨s₁, w₀⟩, ⟨s₂, w₁⟩] ⟨2, w₂⟩ :=
    .cons rfl rfl (.cons rfl rfl .refl)
  obtain ⟨f, w', v, hf, hv, hty, _⟩ :=
    declared_types_hold hp hrun ⟨s₂, w₁⟩ (by simp) "d" _ _ rfl
  exact ⟨ts, _, w₀, _, ⟨s₁, w₀⟩, ⟨s₂, w₁⟩, hp, hrun, rfl, rfl, rfl, f, w', v, hf, hv, hty rfl⟩

end Easel
