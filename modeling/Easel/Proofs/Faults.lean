import Easel.Program.Compile
import Easel.Proofs.Resolution
import Easel.Proofs.Statements
import Easel.Proofs.Typing

/-!
# Easel.Proofs.Faults

Which faults a run can end in. A program that was parsed has passed its checks, and what these look
for is never found again while it runs: no query or command has the wrong number of arguments, no
string stands where a value is wanted, and every color is one. What is left are the dynamic faults,
those about values (`faults_dynamic`).

* `Expr.Normal.eval_dynamic`: a checked expression has dynamic faults only.
* `Action.Vetted.perform_dynamic`: and so has a checked statement.
* `Program.run_failed`: a run fails where one of its statements does.
-/

namespace Easel

variable {α β : Type}

/-- The fault is about values, and not about how the program is written. -/
def RunFault.Dynamic : RunFault → Prop
  | .argumentCount _ _ _ => False
  | .unexpectedString => False
  | .invalidColor _ => False
  | _ => True

theorem RunFault.Arithmetic.dynamic {f : RunFault} (h : f.Arithmetic) : f.Dynamic := by
  rcases h with rfl | rfl | rfl <;> trivial

/-! ## Expressions -/

theorem UnaryOp.apply_dynamic (op : UnaryOp) (v : Value) :
    Ends RunFault.Dynamic (fun _ => True) (op.apply v) := by
  by_cases h : v.ty = op.ty
  · exact (apply_ends h).mono (fun _ hf => hf.dynamic) fun _ _ => trivial
  · cases op <;> cases v <;> trivial

namespace BinaryOp

theorem checkLeft_dynamic (op : BinaryOp) (a : Value) :
    Ends RunFault.Dynamic (fun _ => True) (op.checkLeft a) := by
  cases h : op.checkLeft a with
  | ok u => trivial
  | error f =>
    obtain ⟨_, _, _, rfl⟩ := checkLeft_eq_error_iff.mp h
    trivial

theorem apply_dynamic (op : BinaryOp) (a b : Value) :
    Ends RunFault.Dynamic (fun _ => True) (op.apply a b) := by
  by_cases h : op.Takes a.ty ∧ b.ty = a.ty
  · exact (apply_ends h.1 h.2).mono (fun _ hf => hf.dynamic) fun _ _ => trivial
  · cases op <;> cases a <;> cases b <;> first | trivial | exact absurd ⟨rfl, rfl⟩ h

end BinaryOp

/-- Arguments that have passed their check and have dynamic faults only are good arguments. -/
theorem Param.accepts_dynamic {w : Studio} {name : String} {ps : List Param} {es : List Expr}
    (context : String) (hc : checkAll name ps es = .ok ())
    (he : ∀ e ∈ es, e.Passes .control .number →
      Ends RunFault.Dynamic (fun _ => True) (e.eval w)) :
    List.Forall₂ (Accepts RunFault.Dynamic context) ps (es.map fun e => ⟨e.text?, e.eval w⟩) := by
  refine accepts_of_checkAll hc fun e hmem hn => ?_
  have hv : Ends RunFault.Dynamic (fun _ => True) (e.eval w) := he e (List.of_mem_zip hmem).2 hn
  exact Argument.number_ends hv fun _ _ => trivial

namespace Expr

/-- A string passes no test, so none is left where a value is wanted; and what the arguments of a
query are was checked when it was read. -/
theorem Normal.eval_dynamic (w : Studio) {e : Expr} (h : e.Normal) :
    ∀ {place : Place} {t : Ty}, e.Passes place t →
      Ends RunFault.Dynamic (fun _ => True) (e.eval w) := by
  induction h with
  | number => intro place t _; trivial
  | bool => intro place t _; trivial
  | text => intro place t hp; exact absurd hp not_passes_text
  | var =>
    intro place t _
    rw [eval_var]
    split <;> trivial
  | @unary op e _ _ ih =>
    intro place t hp
    obtain ⟨_, hp⟩ := passes_unary_iff.mp hp
    rw [eval_unary]
    exact (ih hp).bind fun v _ => op.apply_dynamic v
  | @binary l r op _ _ _ _ ihl ihr =>
    intro place t hp
    obtain ⟨_, a, _, hl, hr⟩ := passes_binary_iff.mp hp
    rw [eval_binary]
    refine (ihl hl).bind fun a _ => ?_
    exact (op.checkLeft_dynamic a).bind fun _ _ => (ihr hr).bind fun b _ => op.apply_dynamic a b
  | group _ ih =>
    intro place t hp
    rw [eval_group]
    exact ih (passes_group_iff.mp hp)
  | @call q args _ hc ih =>
    intro place t _
    rw [eval_call]
    have hargs := Param.accepts_dynamic q.keyword hc fun e he hp => ih e he hp
    exact (Query.answer_ends hargs).mono (fun _ hf => hf) fun _ _ => trivial

end Expr

/-! ## Statements -/

namespace Task

/-- The task fails only with faults that have `A`. -/
def FailsWith (A : RunFault → Prop) (t : Task α) : Prop :=
  ∀ w f w', t w = .error f w' → A f

variable {A : RunFault → Prop}

theorem FailsWith.bind {t : Task α} {g : α → Task β} (ht : FailsWith A t)
    (hg : ∀ a, FailsWith A (g a)) : FailsWith A (t >>= g) := by
  intro w f w' h
  replace h : EStateM.bind t g w = .error f w' := h
  unfold EStateM.bind at h
  split at h
  · exact hg _ _ _ _ h
  · rename_i f' w₁ ht'
    cases h
    exact ht _ _ _ ht'

theorem failsWith_of {x : Except RunFault α} (h : Ends A (fun _ => True) x) :
    FailsWith A (Task.of x) := by
  intro w f w' hx
  cases x with
  | ok a => cases hx
  | error e =>
    cases hx
    exact h

theorem failsWith_pure (a : α) : FailsWith A (pure a : Task α) := by
  intro w f w' h
  cases h

theorem failsWith_get : FailsWith A (get : Task Studio) := by
  intro w f w' h
  cases h

theorem failsWith_set (w : Studio) : FailsWith A (set w : Task Unit) := by
  intro w f w' h
  cases h

theorem failsWith_modify (g : Studio → Studio) : FailsWith A (modify g : Task Unit) := by
  intro w f w' h
  cases h

theorem failsWith_throw {f : RunFault} (h : A f) : FailsWith A (throw f : Task α) := by
  intro w f w' hf
  cases hf
  exact h

end Task

namespace Argument

variable {A : RunFault → Prop} {command what : String}

theorem direction_ends {dx dy : Argument} (hx : Ends A (fun _ => True) (dx.number command))
    (hy : Ends A (fun _ => True) (dy.number command))
    (hA : ∀ a b, A (.invalidDirection command a b)) :
    Ends A (fun _ => True) (Argument.direction command dx dy) := by
  refine hx.bind fun a _ => hy.bind fun b _ => ?_
  split
  · trivial
  · exact hA a b

theorem length_ends {a : Argument} (h : Ends A (fun _ => True) (a.number command))
    (hA : ∀ n, A (.negativeLength command what n)) :
    Ends A (fun _ => True) (a.length command what) := by
  refine h.bind fun n _ => ?_
  split
  · exact hA n
  · trivial

end Argument

/-- Looking ahead, drawing there and going there. -/
theorem Task.failsWith_travel {A : RunFault → Prop} (hA : A .overflow)
    (direction : Number × Number) (distance : Number) (stroke : Position → Studio → Stroke) :
    FailsWith A (do
      let w ← get
      let p ← Task.of (w.robot.ahead direction distance)
      modify fun w => w.draw (stroke p w)
      modify fun w => w.moveTo p) := by
  refine failsWith_get.bind fun w => ?_
  have hp : Ends A (fun _ => True) (w.robot.ahead direction distance) := by
    unfold Robot.ahead
    split
    · trivial
    · exact hA
  exact (failsWith_of hp).bind fun p => (failsWith_modify _).bind fun _ => failsWith_modify _

namespace Command

/-- `A` holds of the faults that the command reports by itself, when its arguments are good. -/
structure Reports (A : RunFault → Prop) (c : Command) : Prop where
  overflow : A .overflow
  direction : ∀ dx dy, A (.invalidDirection c.keyword dx dy)
  length : ∀ what ∈ ["distance", "radius", "width", "height"],
    ∀ n, A (.negativeLength c.keyword what n)
  size : ∀ n, A (.invalidBrushSize n)
  place : ∀ x y n, A (.outOfCanvas x y n)

theorem reports_dynamic (c : Command) : c.Reports RunFault.Dynamic :=
  ⟨trivial, fun _ _ => trivial, fun _ _ _ => trivial, fun _ => trivial, fun _ _ _ => trivial⟩

theorem perform_failsWith {A : RunFault → Prop} {c : Command} {args : List Argument}
    (hA : c.Reports A) (h : List.Forall₂ (Param.Accepts A c.keyword) c.params args) :
    Task.FailsWith A (c.perform args) := by
  cases c with
  | spawn =>
    obtain _ | ⟨hx, _ | ⟨hy, _ | _⟩⟩ := h
    refine (Task.failsWith_of (Argument.position_ends hx hy)).bind fun p => ?_
    refine Task.failsWith_get.bind fun w => ?_
    split
    · exact Task.failsWith_set _
    · exact Task.failsWith_throw (hA.place _ _ _)
  | color =>
    obtain _ | ⟨hc, _ | _⟩ := h
    exact (Task.failsWith_of hc).bind fun _ => Task.failsWith_modify _
  | size =>
    obtain _ | ⟨hn, _ | _⟩ := h
    refine (Task.failsWith_of hn).bind fun n => ?_
    split
    · exact Task.failsWith_throw (hA.size n)
    · exact Task.failsWith_modify _
  | drawLine =>
    obtain _ | ⟨hx, _ | ⟨hy, _ | ⟨hd, _ | _⟩⟩⟩ := h
    refine (Task.failsWith_of (Argument.direction_ends hx hy hA.direction)).bind fun _ => ?_
    refine (Task.failsWith_of (Argument.length_ends hd (hA.length _ (by simp)))).bind fun _ => ?_
    exact Task.failsWith_travel hA.overflow _ _ _
  | drawCircle =>
    obtain _ | ⟨hx, _ | ⟨hy, _ | ⟨hr, _ | _⟩⟩⟩ := h
    refine (Task.failsWith_of (Argument.direction_ends hx hy hA.direction)).bind fun _ => ?_
    refine (Task.failsWith_of (Argument.length_ends hr (hA.length _ (by simp)))).bind fun _ => ?_
    exact Task.failsWith_travel hA.overflow _ _ _
  | drawRectangle =>
    obtain _ | ⟨hx, _ | ⟨hy, _ | ⟨hd, _ | ⟨hw, _ | ⟨hh, _ | _⟩⟩⟩⟩⟩ := h
    refine (Task.failsWith_of (Argument.direction_ends hx hy hA.direction)).bind fun _ => ?_
    refine (Task.failsWith_of (Argument.length_ends hd (hA.length _ (by simp)))).bind fun _ => ?_
    refine (Task.failsWith_of (Argument.length_ends hw (hA.length _ (by simp)))).bind fun _ => ?_
    refine (Task.failsWith_of (Argument.length_ends hh (hA.length _ (by simp)))).bind fun _ => ?_
    exact Task.failsWith_travel hA.overflow _ _ _
  | fill =>
    cases h
    exact Task.failsWith_modify _

end Command

theorem Action.Vetted.perform_dynamic {a : Action} (h : a.Vetted) :
    Task.FailsWith RunFault.Dynamic a.perform := by
  cases h with
  | assign hn hty =>
    refine Task.failsWith_get.bind fun w => ?_
    refine (Task.failsWith_of (hn.eval_dynamic w (Expr.passes_of_shape? hty))).bind fun v => ?_
    exact (Task.failsWith_modify _).bind fun _ => Task.failsWith_pure _
  | @command c args hn hc =>
    refine Task.failsWith_get.bind fun w => ?_
    rw [Expr.argumentsOf_eq_map]
    have hargs := Param.accepts_dynamic c.keyword hc fun e he hp => (hn e he).eval_dynamic w hp
    exact (Command.perform_failsWith c.reports_dynamic hargs).bind fun _ => Task.failsWith_pure _
  | label => exact Task.failsWith_pure _
  | @goTo l e hn hb =>
    have hp : e.Passes .control .boolean := hb
    refine Task.failsWith_get.bind fun w => ?_
    refine (Task.failsWith_of (hn.eval_dynamic w hp)).bind fun v => ?_
    rcases v with n | (_ | _)
    · exact Task.failsWith_throw trivial
    · exact Task.failsWith_pure _
    · exact Task.failsWith_pure _
  | discard hn hty =>
    refine Task.failsWith_get.bind fun w => ?_
    refine (Task.failsWith_of (hn.eval_dynamic w (Expr.passes_of_shape? hty))).bind fun v => ?_
    exact Task.failsWith_pure _

/-- A statement reports the fault of its task on its own line. -/
theorem Stmt.perform_eq_error_iff {s : Stmt} {w w' : Studio} {d : Diagnostic} :
    s.perform w = .error d w' ↔
      ∃ f, s.action.perform w = .error f w' ∧ d = ⟨s.line, .run f⟩ := by
  unfold perform EStateM.adaptExcept
  cases s.action.perform w with
  | ok a w₁ => simp
  | error f w₁ =>
    simp only [EStateM.Result.error.injEq]
    constructor
    · rintro ⟨rfl, rfl⟩
      exact ⟨f, ⟨rfl, rfl⟩, rfl⟩
    · rintro ⟨_, ⟨rfl, rfl⟩, rfl⟩
      exact ⟨rfl, rfl⟩

/-! ## Runs -/

namespace Program

theorem fault_of_labels {p : Program} {d : Diagnostic} (h : p.labels = .error d) :
    ∃ f, d.fault = .static f := by
  rcases clash_or_stray_of_labels h with hc | ⟨_, hs⟩
  · obtain ⟨l, i, j, s, s', _, _, _, _, _, _, _, rfl⟩ := hc
    exact ⟨_, rfl⟩
  · obtain ⟨l, e, j, s, _, _, _, _, rfl⟩ := hs
    exact ⟨_, rfl⟩

theorem step_failed {p : Program} {t : LabelTable} {c : Config} {d : Diagnostic} {w : Studio}
    (h : p.step t c = .failed d w) : ∃ s ∈ p, s.perform c.studio = .error d w := by
  unfold step at h
  split at h
  · cases h
  · rename_i s hs
    split at h
    · rename_i hp
      cases h
      exact ⟨s, List.mem_of_getElem? hs, hp⟩
    · cases h
    · split at h <;> cases h

/-- A run fails where one of its statements does. -/
theorem run_failed {p : Program} {t : LabelTable} {d : Diagnostic} {w' : Studio} :
    ∀ {fuel : Nat} {c : Config}, p.run t fuel c = some (.failed d w') →
      ∃ s ∈ p, ∃ w, s.perform w = .error d w' := by
  intro fuel
  induction fuel with
  | zero => intro c h; cases h
  | succ fuel ih =>
    intro c h
    simp only [run] at h
    cases hs : p.step t c with
    | next c' => rw [hs] at h; exact ih h
    | finished w => rw [hs] at h; cases h
    | failed d' w =>
      rw [hs] at h
      cases h
      obtain ⟨s, hmem, hp⟩ := step_failed hs
      exact ⟨s, hmem, c.studio, hp⟩
    | stray l w => rw [hs] at h; cases h

theorem execute_failed {p : Program} {fuel : Nat} {w w' : Studio} {d : Diagnostic}
    (h : p.execute fuel w = some (.failed d w')) :
    p.labels = .error d ∨ ∃ s ∈ p, ∃ w₀, s.perform w₀ = .error d w' := by
  unfold execute at h
  split at h
  · rename_i hl
    cases h
    exact .inl hl
  · exact .inr (run_failed h)

theorem ofText_of_compile {text : String} {p : Program} (h : compile text = .ok p) :
    ofText text = .ok p ∧ ∃ t, p.labels = .ok t := by
  unfold compile at h
  cases ho : ofText text with
  | error d => rw [ho] at h; cases h
  | ok p' =>
    cases hl : p'.labels with
    | error d => simp only [ho, bind, Except.bind, hl] at h; cases h
    | ok t =>
      simp only [ho, bind, Except.bind, hl] at h
      cases h
      exact ⟨rfl, t, hl⟩

/-- No run of a parsed program finds what the checks look for, and a compiled program has nothing
left to check when it starts. -/
theorem faults_dynamic :
    (∀ (ts : List Token) (p : Program), parse ts = .ok p →
      ∀ fuel w d w', p.execute fuel w = some (.failed d w') →
        ∀ f, d.fault = .run f → f.Dynamic) ∧
    (∀ (text : String) (p : Program), compile text = .ok p →
      ∀ fuel w d w', p.execute fuel w = some (.failed d w') → ∃ f, d.fault = .run f) := by
  constructor
  · intro ts p hp fuel w d w' h f hf
    rcases execute_failed h with hl | ⟨s, hs, w₀, hw⟩
    · obtain ⟨f', hf'⟩ := fault_of_labels hl
      rw [hf'] at hf
      cases hf
    · obtain ⟨f', ha, rfl⟩ := Stmt.perform_eq_error_iff.mp hw
      cases hf
      exact (vetted_of_parse hp s hs).perform_dynamic _ _ _ ha
  · intro text p hp fuel w d w' h
    rcases execute_failed h with hl | ⟨s, hs, w₀, hw⟩
    · obtain ⟨_, t, ht⟩ := ofText_of_compile hp
      rw [ht] at hl
      cases hl
    · obtain ⟨f, _, rfl⟩ := Stmt.perform_eq_error_iff.mp hw
      exact ⟨f, rfl⟩

/-- A division in an argument of a command: the tokens call the command a name, and only its
spelling tells. The text that spells these tokens is compiled and fails in the same way. -/
theorem faults_dynamic_division :
    ∃ (ts : List Token) (p : Program) (d : Diagnostic),
      ts.head? = some ⟨.name "a", "Size", 1⟩ ∧ parse ts = .ok p ∧
        compile "Size(1 / 0)" = .ok p ∧ d = ⟨1, .run .divisionByZero⟩ ∧
        p.execute 2 (.blank 4) = some (.failed d (.blank 4)) ∧
        (∀ f, d.fault = .run f → f.Dynamic) ∧ ∃ f, d.fault = .run f := by
  let arg : List Token :=
    [⟨.openParen, "(", 1⟩, ⟨.number 1, "1", 1⟩, ⟨.operator (.arith .div), "/", 1⟩,
      ⟨.number 0, "0", 1⟩, ⟨.closeParen, ")", 1⟩]
  let ts : List Token := ⟨.name "a", "Size", 1⟩ :: arg
  let p : Program := [⟨1, .command .size [.binary (.number 1) (.arith .div) (.number 0)]⟩]
  have hp : parse ts = .ok p := rfl
  have hscan : Token.scan "Size(1 / 0)" =
      .ok (⟨.command .size, "Size", 1⟩ :: arg ++ [⟨.endOfInput, "", 1⟩]) := rfl
  have hc : compile "Size(1 / 0)" = .ok p := by
    unfold compile ofText
    rw [hscan]
    rfl
  have hx : p.execute 2 (.blank 4) = some (.failed ⟨1, .run .divisionByZero⟩ (.blank 4)) := rfl
  exact ⟨ts, p, _, rfl, hp, hc, rfl, hx, faults_dynamic.1 ts p hp _ _ _ _ hx,
    faults_dynamic.2 _ p hc _ _ _ _ hx⟩

end Program
end Easel
