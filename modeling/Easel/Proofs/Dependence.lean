import Easel.Proofs.Effects
import Easel.Proofs.Grouping
import Easel.Proofs.Queries

/-!
# Easel.Proofs.Dependence

What the value of an expression depends on: on the variables and on the queries that stand in it,
and on nothing else in the studio (`Expr.eval_congr`).

Where control depends on an expression there are no queries, so two studios that agree about its
variables give it the same value or fault, wherever the robot is and whatever it has drawn. In a
parsed program this goes for every condition of a jump and every argument of a command
(`Program.control_sees_variables_only`).
-/

namespace Easel

/-! ## Studios that look the same -/

namespace Studio

/-- Every variable among the expressions has the same value in both studios, or none in either. -/
def SameVariables (w w' : Studio) (nodes : List Expr) : Prop :=
  ∀ x, .var x ∈ nodes → w.robot.valueOf? x = w'.robot.valueOf? x

/-- Whatever the expressions ask, the variables by their values and the queries by their answers,
they are told the same in both studios. -/
structure Alike (w w' : Studio) (nodes : List Expr) : Prop where
  vars : w.SameVariables w' nodes
  queries : ∀ q args, .call q args ∈ nodes → ∀ as, q.answer w as = q.answer w' as

variable {w w' : Studio} {nodes nodes' : List Expr}

theorem SameVariables.mono (h : w.SameVariables w' nodes) (hs : nodes' ⊆ nodes) :
    w.SameVariables w' nodes' :=
  fun x hx => h x (hs hx)

theorem Alike.mono (h : w.Alike w' nodes) (hs : nodes' ⊆ nodes) : w.Alike w' nodes' :=
  ⟨h.vars.mono hs, fun q args hq => h.queries q args (hs hq)⟩

/-- An expression without queries asks for its variables only. -/
theorem SameVariables.alike {e : Expr} (h : w.SameVariables w' e.nodes) (he : e.QueryFree) :
    w.Alike w' e.nodes :=
  ⟨h, fun q args hq => absurd hq (he q args)⟩

end Studio

namespace Expr

variable {w w' : Studio}

theorem eval_congr (e : Expr) : w.Alike w' e.nodes → e.eval w = e.eval w' := by
  induction e using Expr.induct with
  | number n => intro _; rfl
  | bool b => intro _; rfl
  | text s => intro _; rfl
  | var x =>
    intro h
    rw [eval_var, eval_var, h.vars x (by simp [nodes])]
  | unary op e ih =>
    intro h
    rw [eval_unary, eval_unary, ih (h.mono (by simp [nodes]))]
  | binary l op r ihl ihr =>
    intro h
    rw [eval_binary, eval_binary, ihl (h.mono (by simp [nodes])), ihr (h.mono (by simp [nodes]))]
  | group e ih =>
    intro h
    rw [eval_group, eval_group, ih (h.mono (by simp [nodes]))]
  | call q args ih =>
    intro h
    have hargs : args.map (fun e => Argument.mk e.text? (e.eval w)) =
        args.map fun e => ⟨e.text?, e.eval w'⟩ := by
      refine List.map_congr_left fun e he => ?_
      have hsub : e.nodes ⊆ (Expr.call q args).nodes := by
        rw [nodes]
        exact List.subset_cons_of_subset _ (nodes_subset_nodesAll he)
      rw [ih e he (h.mono hsub)]
    rw [eval_call, eval_call, hargs, h.queries q args (by simp [nodes])]

theorem argumentsOf_congr {args : List Expr} (h : ∀ e ∈ args, w.Alike w' e.nodes) :
    argumentsOf w args = argumentsOf w' args := by
  rw [argumentsOf_eq_map, argumentsOf_eq_map]
  refine List.map_congr_left fun e he => ?_
  rw [e.eval_congr (h e he)]

theorem Passes.queryFree {e : Expr} {t : Ty} (h : e.Passes .control t) : e.QueryFree :=
  (e.passes_control_iff.mp h).2

end Expr

/-- No query stands in an argument that has passed its check. -/
theorem Param.Fits.queryFree {p : Param} {e : Expr} (h : p.Fits e) : e.QueryFree := by
  cases p with
  | color =>
    obtain ⟨s, _, rfl, _⟩ := h
    simp [Expr.QueryFree, Expr.nodes]
  | numeric =>
    have hp : e.Passes .control .number := h
    exact hp.queryFree

/-! ## Conditions and arguments -/

/-- What a statement decides, apart from what it does to the studio: where the program goes on, or
the diagnostic that it stops with. -/
def Stmt.verdict (s : Stmt) (w : Studio) : Except Diagnostic Flow :=
  match s.perform w with
  | .ok f _ => .ok f
  | .error d _ => .error d

/-- A jump decides by the value of its condition. -/
theorem Stmt.verdict_congr_of_goTo {s : Stmt} {l : String} {e : Expr} {w w' : Studio}
    (hs : s.action = .goTo l e) (h : e.eval w = e.eval w') : s.verdict w = s.verdict w' := by
  simp only [verdict, perform, EStateM.adaptExcept, hs, Action.perform, Task.get_bind, h]
  rcases e.eval w' with f | (n | (_ | _)) <;> rfl

namespace Program

/-- Two studios that agree about the variables of an expression give it the same value or fault, if
it passes where control depends on it. So in a parsed program the variables of its condition decide
if a jump is taken, and the variables of its arguments what a command receives. -/
theorem control_sees_variables_only :
    (∀ e : Expr, e.isNumeric .control = true ∨ e.isBoolean .control = true →
      ∀ w w' : Studio, w.SameVariables w' e.nodes → e.eval w = e.eval w') ∧
    ∀ (ts : List Token) (p : Program), parse ts = .ok p → ∀ s ∈ p, ∀ w w' : Studio,
      (∀ l e, s.action = .goTo l e → w.SameVariables w' e.nodes → s.verdict w = s.verdict w') ∧
      (∀ c args, s.action = .command c args → w.SameVariables w' (Expr.nodesAll args) →
        Expr.argumentsOf w args = Expr.argumentsOf w' args) := by
  constructor
  · intro e he w w' h
    have hq : e.QueryFree := by
      rcases he with hn | hb
      · exact Expr.Passes.queryFree (t := .number) hn
      · exact Expr.Passes.queryFree (t := .boolean) hb
    exact e.eval_congr (h.alike hq)
  · intro ts p hp s hs w w'
    have hvet := vetted_of_parse hp s hs
    constructor
    · intro l e ha h
      rw [ha] at hvet
      cases hvet with
      | goTo _ hb =>
        have hq : e.QueryFree := Expr.Passes.queryFree (t := .boolean) hb
        exact Stmt.verdict_congr_of_goTo ha (e.eval_congr (h.alike hq))
    · intro c args ha h
      rw [ha] at hvet
      cases hvet with
      | command _ hc =>
        refine Expr.argumentsOf_congr fun e he => ?_
        obtain ⟨param, hfits⟩ := Param.exists_fits (Param.checkAll_eq_ok_iff.mp hc) he
        exact (h.mono (Expr.nodes_subset_nodesAll he)).alike hfits.queryFree

/-- A jump and a command that ask for `x`, in two studios that have nothing else in common: in the
second one the robot stands elsewhere, with another brush and another variable, before strokes on a
canvas that has no room for them. -/
theorem control_sees_variables_only_in_jump :
    ∃ (ts : List Token) (p : Program) (jump : Stmt) (condition size : Expr) (w w' : Studio),
      parse ts = .ok p ∧ p = [jump, ⟨2, .command .size [size]⟩] ∧
      jump.action = .goTo "on" condition ∧
      condition = .binary (.var "x") (.order .lt) (.number 3) ∧
      size = .binary (.number 5) (.arith .sub) (.var "x") ∧
      w.SameVariables w' condition.nodes ∧ w.robot.cursor ≠ w'.robot.cursor ∧
      w.robot.brush ≠ w'.robot.brush ∧ w.canvas ≠ w'.canvas ∧
      condition.eval w = condition.eval w' ∧ condition.eval w = .ok (.bool true) ∧
      jump.verdict w = jump.verdict w' ∧ jump.verdict w = .ok (.jump "on") ∧
      Expr.argumentsOf w [size] = Expr.argumentsOf w' [size] ∧
      Expr.argumentsOf w [size] = [⟨none, .ok (.number 3)⟩] := by
  let condition : Expr := .binary (.var "x") (.order .lt) (.number 3)
  let size : Expr := .binary (.number 5) (.arith .sub) (.var "x")
  let jump : Stmt := ⟨1, .goTo "on" condition⟩
  let command : Stmt := ⟨2, .command .size [size]⟩
  let ts : List Token :=
    [⟨.goTo, "GoTo", 1⟩, ⟨.openBracket, "[", 1⟩, ⟨.name "on", "on", 1⟩, ⟨.closeBracket, "]", 1⟩,
      ⟨.openParen, "(", 1⟩, ⟨.name "x", "x", 1⟩, ⟨.operator (.order .lt), "<", 1⟩,
      ⟨.number 3, "3", 1⟩, ⟨.closeParen, ")", 1⟩, ⟨.newLine, "\n", 1⟩,
      ⟨.command .size, "Size", 2⟩, ⟨.openParen, "(", 2⟩, ⟨.number 5, "5", 2⟩,
      ⟨.operator (.arith .sub), "-", 2⟩, ⟨.name "x", "x", 2⟩, ⟨.closeParen, ")", 2⟩]
  let w : Studio := (Studio.blank 8).assign "x" (.number 2)
  let w' : Studio :=
    ((⟨{ brush := ⟨.blue, 7⟩, cursor := ⟨9, -4⟩ }, ⟨-1, #[.fill ⟨0, 0⟩ {}]⟩⟩ : Studio).assign
      "y" (.bool false)).assign "x" (.number 2)
  have hp : parse ts = .ok [jump, command] := rfl
  have hx (es : List Expr) (hes : ∀ y, .var y ∈ es → y = "x") : w.SameVariables w' es := by
    intro y hy
    obtain rfl := hes y hy
    rfl
  have hcondition : w.SameVariables w' condition.nodes := hx _ (by simp [condition, Expr.nodes])
  have hsize : w.SameVariables w' (Expr.nodesAll [size]) :=
    hx _ (by simp [size, Expr.nodes, Expr.nodesAll])
  obtain ⟨hexpr, hprogram⟩ := control_sees_variables_only
  have heval := hexpr condition (.inr rfl) w w' hcondition
  have hjump := (hprogram ts _ hp jump (by simp) w w').1 "on" condition rfl hcondition
  have hcommand := (hprogram ts _ hp command (by simp) w w').2 .size [size] rfl hsize
  exact ⟨ts, _, jump, condition, size, w, w', hp, rfl, rfl, rfl, rfl, hcondition, by decide,
    by decide, by decide, heval, rfl, hjump, rfl, hcommand, rfl⟩

end Program
end Easel
