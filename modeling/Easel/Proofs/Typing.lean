import Easel.Proofs.Arguments
import Easel.Proofs.Chains
import Easel.Proofs.Fuel
import Easel.Proofs.Precedence

/-!
# Easel.Proofs.Typing

Types of expressions. `HasTy Γ e t` types an expression with variables of the types `Γ`. What has a
type passes the test for it, and evaluates to a value of it or stops at an operation on numbers that
has no result (`eval_safe`); without variables, to pass the test is to have the type.

* `passes_unary_iff`, `passes_binary_iff`, `passes_call_iff`: the tests, operator by operator.
  Everything else about them is proved from these.
* `HasTy.eval_ends`: evaluation follows the type.
-/

namespace Easel

/-- The type that an operator takes and gives. -/
def UnaryOp.ty : UnaryOp → Ty
  | .neg => .number
  | .not => .boolean

namespace BinaryOp

/-- Both operands may be of the type. -/
def Takes : BinaryOp → Ty → Prop
  | .arith _, t => t = .number
  | .order _, t => t = .number
  | .equality _, _ => True
  | .logic _, t => t = .boolean

/-- The type of the result. -/
def ty : BinaryOp → Ty
  | .arith _ => .number
  | .order _ | .equality _ | .logic _ => .boolean

end BinaryOp

theorem Ty.exists_iff {P : Ty → Prop} : (∃ t, P t) ↔ P .number ∨ P .boolean := by
  constructor
  · rintro ⟨_ | _, h⟩
    · exact .inl h
    · exact .inr h
  · rintro (h | h)
    · exact ⟨_, h⟩
    · exact ⟨_, h⟩

/-! ## The tests -/

namespace Expr

variable {place : Place} {t : Ty}

/-- The expression passes the test for a type. -/
def Passes (place : Place) : Ty → Expr → Prop
  | .number, e => e.isNumeric place = true
  | .boolean, e => e.isBoolean place = true

theorem passes_of_shape? {e : Expr} (h : e.shape? place = some t) : e.Passes place t := by
  unfold shape? at h
  split at h
  · rename_i hn
    cases h
    exact hn
  · split at h
    · rename_i hb
      cases h
      exact hb
    · cases h

theorem not_passes_text {s : String} : ¬ (Expr.text s).Passes place t := by
  cases t <;> simp [Passes, isNumeric, isBoolean]

theorem passes_unary_iff {op : UnaryOp} {e : Expr} :
    (Expr.unary op e).Passes place t ↔ op.ty = t ∧ e.Passes place t := by
  cases op <;> cases t <;> simp [Passes, UnaryOp.ty, isNumeric, isBoolean]

theorem passes_binary_iff {l r : Expr} {op : BinaryOp} :
    (Expr.binary l op r).Passes place t ↔
      op.ty = t ∧ ∃ a, op.Takes a ∧ l.Passes place a ∧ r.Passes place a := by
  rw [Ty.exists_iff]
  cases op <;> cases t <;>
    simp [Passes, BinaryOp.ty, BinaryOp.Takes, isNumeric_binary, isBoolean_binary,
      BinaryOp.isArithmetic, BinaryOp.isRelational, BinaryOp.isEquality, BinaryOp.isLogical]

theorem passes_group_iff {e : Expr} : (Expr.group e).Passes place t ↔ e.Passes place t := by
  cases t <;> simp [Passes, isNumeric, isBoolean]

theorem passes_call_iff {q : Query} {args : List Expr} :
    (Expr.call q args).Passes place t ↔ place = .value ∧ q.ty = t := by
  cases t <;> simp [Passes, isNumeric, isBoolean]

/-! ## Types -/

/-- The expression is of type `t` when every variable is of the type that `Γ` gives it. -/
inductive HasTy (Γ : String → Ty) : Expr → Ty → Prop where
  | number {n : Number} : HasTy Γ (.number n) .number
  | bool {b : Bool} : HasTy Γ (.bool b) .boolean
  | var {x : String} : HasTy Γ (.var x) (Γ x)
  | unary {op : UnaryOp} {e : Expr} : HasTy Γ e op.ty → HasTy Γ (.unary op e) op.ty
  | binary {l r : Expr} {op : BinaryOp} {t : Ty} : op.Takes t → HasTy Γ l t → HasTy Γ r t →
      HasTy Γ (.binary l op r) op.ty
  | group {e : Expr} {t : Ty} : HasTy Γ e t → HasTy Γ (.group e) t
  | call {q : Query} {args : List Expr} :
      (∀ e, (.numeric, e) ∈ q.params.zip args → HasTy Γ e .number) → HasTy Γ (.call q args) q.ty

theorem HasTy.passes {Γ : String → Ty} {e : Expr} (h : HasTy Γ e t) : e.Passes .value t := by
  induction h with
  | number => rfl
  | bool => rfl
  | @var x => cases Γ x <;> rfl
  | unary _ ih => exact passes_unary_iff.mpr ⟨rfl, ih⟩
  | binary ht _ _ ihl ihr => exact passes_binary_iff.mpr ⟨rfl, _, ht, ihl, ihr⟩
  | group _ ih => exact passes_group_iff.mpr ih
  | call _ _ => exact passes_call_iff.mpr ⟨rfl, rfl⟩

theorem nodes_subset_nodesAll {e : Expr} {es : List Expr} (h : e ∈ es) :
    e.nodes ⊆ nodesAll es := by
  induction es with
  | nil => cases h
  | cons e' es ih =>
    rw [nodesAll]
    rcases List.mem_cons.mp h with rfl | h
    · exact List.subset_append_left ..
    · exact List.subset_append_of_subset_right _ (ih h)

/-- Without variables the test decides, for it treats nothing else as open. -/
theorem hasTy_of_passes (Γ : String → Ty) (e : Expr) : ∀ {place : Place} {t : Ty}, e.Normal →
    (∀ x, .var x ∉ e.nodes) → e.Passes place t → HasTy Γ e t := by
  induction e using Expr.induct with
  | number n =>
    rintro place (_ | _) _ _ h
    · exact .number
    · cases h
  | bool b =>
    rintro place (_ | _) _ _ h
    · cases h
    · exact .bool
  | text s => exact fun _ _ h => absurd h not_passes_text
  | var x => exact fun _ hx => absurd (List.mem_singleton_self _) (hx x)
  | unary op e ih =>
    intro place t hn hx h
    obtain ⟨rfl, h⟩ := passes_unary_iff.mp h
    cases hn with
    | unary hn _ => exact .unary (ih hn (fun x hmem => hx x (by simp [nodes, hmem])) h)
  | binary l op r ihl ihr =>
    intro place t hn hx h
    obtain ⟨rfl, a, ht, hl, hr⟩ := passes_binary_iff.mp h
    cases hn with
    | binary hnl hnr _ _ =>
      exact .binary ht (ihl hnl (fun x hmem => hx x (by simp [nodes, hmem])) hl)
        (ihr hnr (fun x hmem => hx x (by simp [nodes, hmem])) hr)
  | group e ih =>
    intro place t hn hx h
    cases hn with
    | group hn =>
      exact .group (ih hn (fun x hmem => hx x (by simp [nodes, hmem])) (passes_group_iff.mp h))
  | call q args ih =>
    intro place t hn hx h
    obtain ⟨_, rfl⟩ := passes_call_iff.mp h
    cases hn with
    | call hargs hc =>
      obtain ⟨_, hfits⟩ := List.forall₂_iff_zip.mp (Param.checkAll_eq_ok_iff.mp hc)
      refine .call fun e he => ?_
      have hmem := (List.of_mem_zip he).2
      have hp : e.Passes .control .number := hfits he
      refine ih e hmem (hargs e hmem) (fun x hv => hx x ?_) hp
      rw [nodes]
      exact List.mem_cons_of_mem _ (nodes_subset_nodesAll hmem hv)

end Expr

/-! ## Evaluation -/

/-- An operation on numbers that has no result. -/
def RunFault.Arithmetic (f : RunFault) : Prop :=
  f = .divisionByZero ∨ f = .negativeExponent ∨ f = .overflow

theorem orOverflow_ends (n : Option Number) :
    Ends RunFault.Arithmetic (fun _ => True) (orOverflow n) := by
  cases n with
  | none => exact .inr (.inr rfl)
  | some n => trivial

theorem ArithOp.apply_ends (a b : Number) (op : ArithOp) :
    Ends RunFault.Arithmetic (fun _ => True) (op.apply a b) := by
  cases op <;> simp only [apply]
  case add | sub | mul => exact orOverflow_ends _
  case div | mod =>
    split
    · exact .inl rfl
    · exact orOverflow_ends _
  case pow =>
    split
    · exact .inr (.inl rfl)
    · exact orOverflow_ends _

theorem UnaryOp.apply_ends {op : UnaryOp} {v : Value} (h : v.ty = op.ty) :
    Ends RunFault.Arithmetic (fun x => x.ty = op.ty) (op.apply v) := by
  cases op <;> cases v <;> cases h
  · exact (orOverflow_ends _).bind fun _ _ => rfl
  · rfl

namespace BinaryOp

theorem Takes.eq_of_operandTy? {op : BinaryOp} {t ty : Ty} (h : op.Takes t)
    (hty : op.operandTy? = some ty) : t = ty := by
  cases op <;> cases hty <;> exact h

theorem checkLeft_ends {op : BinaryOp} {v : Value} (h : op.Takes v.ty) :
    Ends RunFault.Arithmetic (fun _ => True) (op.checkLeft v) := by
  rw [checkLeft_eq_ok_iff.mpr fun _ hty => h.eq_of_operandTy? hty]
  trivial

theorem apply_ends {op : BinaryOp} {a b : Value} (h : op.Takes a.ty) (hb : b.ty = a.ty) :
    Ends RunFault.Arithmetic (fun x => x.ty = op.ty) (op.apply a b) := by
  cases a <;> cases b <;> cases hb
  · cases op with
    | arith op => exact (op.apply_ends _ _).bind fun _ _ => rfl
    | order op => rfl
    | equality op => rfl
    | logic op => cases h
  · cases op with
    | arith op => cases h
    | order op => cases h
    | equality op => rfl
    | logic op => rfl

end BinaryOp

/-- Every variable of the expression has a value of the type that `Γ` gives it. -/
def Studio.Agrees (w : Studio) (Γ : String → Ty) (e : Expr) : Prop :=
  ∀ x, .var x ∈ e.nodes → ∃ v, w.robot.valueOf? x = some v ∧ v.ty = Γ x

theorem Studio.Agrees.mono {w : Studio} {Γ : String → Ty} {e e' : Expr} (h : w.Agrees Γ e)
    (hs : e'.nodes ⊆ e.nodes) : w.Agrees Γ e' :=
  fun x hx => h x (hs hx)

namespace Expr

/-- An expression of a type evaluates to a value of the type, unless an operation on numbers has no
result. -/
theorem HasTy.eval_ends {Γ : String → Ty} {w : Studio} {e : Expr} {t : Ty} (h : HasTy Γ e t) :
    e.Normal → w.Agrees Γ e → Ends RunFault.Arithmetic (fun v => v.ty = t) (e.eval w) := by
  induction h with
  | number => intro _ _; rfl
  | bool => intro _ _; rfl
  | @var x =>
    intro _ hw
    obtain ⟨v, hv, ht⟩ := hw x (by simp [nodes])
    simp only [eval_var, hv]
    exact ht
  | unary _ ih =>
    intro hn hw
    cases hn with
    | unary hn _ =>
      rw [eval_unary]
      exact (ih hn (hw.mono (by simp [nodes]))).bind fun v hv => UnaryOp.apply_ends hv
  | @binary l r op t ht _ _ ihl ihr =>
    intro hn hw
    cases hn with
    | binary hnl hnr _ _ =>
      have hl := ihl hnl (hw.mono (by simp [nodes]))
      have hr := ihr hnr (hw.mono (by simp [nodes]))
      rw [eval_binary]
      refine hl.bind fun a ha => ?_
      subst ha
      exact (BinaryOp.checkLeft_ends ht).bind fun _ _ => hr.bind fun b hb =>
        BinaryOp.apply_ends ht hb
  | group _ ih =>
    intro hn hw
    cases hn with
    | group hn =>
      rw [eval_group]
      exact ih hn (hw.mono (by simp [nodes]))
  | @call q args _ ih =>
    intro hn hw
    cases hn with
    | call hargs hc =>
      rw [eval_call]
      refine Query.answer_ends (Param.accepts_of_checkAll hc fun e he _ => ?_)
      have hmem := (List.of_mem_zip he).2
      have hsub : e.nodes ⊆ (Expr.call q args).nodes := by
        rw [nodes]
        exact List.subset_cons_of_subset _ (nodes_subset_nodesAll hmem)
      refine Argument.number_ends (ih e he (hargs e hmem) (hw.mono hsub)) ?_
      intro b hb
      cases hb

/-- The parser finds the expression in some tokens. -/
def Parsed (e : Expr) : Prop := ∃ s s', Parser.expr s = .ok e s'

theorem Parsed.normal {e : Expr} (h : e.Parsed) : e.Normal := by
  obtain ⟨s, s', h⟩ := h
  exact (Parser.expr_ok_iff.mp h).normal.1

/-- An expression that has a type passes the test for it, and evaluates to a value of it unless an
operation on numbers has no result. An expression without variables has the types that it passes
as. -/
theorem eval_safe {e : Expr} (he : e.Parsed) (t : Ty) :
    (∀ Γ, HasTy Γ e t → e.Passes .value t ∧
      ∀ w : Studio, w.Agrees Γ e → Ends RunFault.Arithmetic (fun v => v.ty = t) (e.eval w)) ∧
    ((∀ x, .var x ∉ e.nodes) → e.Passes .value t →
      ∀ w : Studio, Ends RunFault.Arithmetic (fun v => v.ty = t) (e.eval w)) := by
  have hn := he.normal
  constructor
  · intro Γ h
    exact ⟨h.passes, fun w hw => h.eval_ends hn hw⟩
  · intro hx hp w
    have h : HasTy (fun _ => t) e t := hasTy_of_passes _ e hn hx hp
    exact h.eval_ends hn fun x hmem => absurd hmem (hx x)

/-- A query about the variable `x`, which is a number, compared with the variable `y`, which is a
boolean; and a division without variables, which passes as a number and has no value. -/
theorem eval_safe_query_and_division :
    (∃ (e : Expr) (Γ : String → Ty) (w : Studio),
      e = .binary (.call .isBrushSize [.var "x"]) (.equality .eq) (.var "y") ∧ e.Parsed ∧
        HasTy Γ e .boolean ∧ w.Agrees Γ e ∧
        Ends RunFault.Arithmetic (fun v => v.ty = .boolean) (e.eval w)) ∧
    (∃ e : Expr, e = .binary (.number 1) (.arith .div) (.number 0) ∧ e.Parsed ∧
      (∀ x, .var x ∉ e.nodes) ∧ e.Passes .value .number ∧
      Ends RunFault.Arithmetic (fun v => v.ty = .number) (e.eval (.blank 4))) := by
  constructor
  · let s : Stream :=
      ⟨[⟨.query .isBrushSize, "IsBrushSize", 1⟩, ⟨.openParen, "(", 1⟩, ⟨.name "x", "x", 1⟩,
        ⟨.closeParen, ")", 1⟩, ⟨.operator (.equality .eq), "==", 1⟩, ⟨.name "y", "y", 1⟩], "", 1⟩
    let e : Expr := .binary (.call .isBrushSize [.var "x"]) (.equality .eq) (.var "y")
    let Γ : String → Ty := fun x => if x = "y" then .boolean else .number
    let w : Studio := ((Studio.blank 4).assign "x" (.number 7)).assign "y" (.bool true)
    have hp : e.Parsed := ⟨s, ⟨[], "", 1⟩, rfl⟩
    have hq : HasTy Γ (.call .isBrushSize [.var "x"]) .boolean := by
      refine .call fun a ha => ?_
      obtain rfl : a = .var "x" := by simpa [Query.params] using ha
      exact .var
    have ht : HasTy Γ e .boolean := .binary trivial hq .var
    have hw : w.Agrees Γ e := by
      intro z hz
      have hz : z = "x" ∨ z = "y" := by simpa [e, nodes, nodesAll] using hz
      rcases hz with rfl | rfl
      · exact ⟨.number 7, rfl, rfl⟩
      · exact ⟨.bool true, rfl, rfl⟩
    exact ⟨e, Γ, w, rfl, hp, ht, hw, ((eval_safe hp .boolean).1 Γ ht).2 w hw⟩
  · let s : Stream :=
      ⟨[⟨.number 1, "1", 1⟩, ⟨.operator (.arith .div), "/", 1⟩, ⟨.number 0, "0", 1⟩], "", 1⟩
    let e : Expr := .binary (.number 1) (.arith .div) (.number 0)
    have hp : e.Parsed := ⟨s, ⟨[], "", 1⟩, rfl⟩
    have hx : ∀ x, .var x ∉ e.nodes := by
      intro x
      simp [e, nodes]
    exact ⟨e, rfl, hp, hx, rfl, (eval_safe hp .number).2 hx rfl _⟩

end Expr
end Easel
