import Mathlib.Data.List.Forall2
import Easel.Expr.Parse
import Easel.Proofs.Evaluation

/-!
# Easel.Proofs.Arguments

What arguments that have passed their check are good for. A check looks at arguments as they are
written and evaluation at what they come to; `accepts_of_checkAll` goes from the one to the other,
and `Query.answer_ends` says that a query asked with such arguments has no fault of its own.

`Ends A P x` says how a result can look: a value with `P` or a fault with `A`. It is proved along
the binds of a computation (`Ends.bind`).
-/

namespace Easel

variable {α β : Type} {A : RunFault → Prop}

/-- A value with `P` or a fault with `A`. -/
def Ends (A : RunFault → Prop) (P : α → Prop) : Except RunFault α → Prop
  | .ok a => P a
  | .error f => A f

namespace Ends

theorem bind {P : α → Prop} {Q : β → Prop} {x : Except RunFault α} {f : α → Except RunFault β}
    (hx : Ends A P x) (hf : ∀ a, P a → Ends A Q (f a)) : Ends A Q (x >>= f) := by
  cases x with
  | ok a => exact hf a hx
  | error e => exact hx

theorem mono {B : RunFault → Prop} {P Q : α → Prop} {x : Except RunFault α} (h : Ends A P x)
    (hA : ∀ f, A f → B f) (hP : ∀ a, P a → Q a) : Ends B Q x := by
  cases x with
  | ok a => exact hP a h
  | error f => exact hA f h

theorem any (x : Except RunFault α) : Ends (fun _ => True) (fun _ => True) x := by
  cases x <;> trivial

end Ends

namespace Argument

/-- Only a boolean is refused where a number is asked for. -/
theorem number_ends {P : Value → Prop} {context : String} {a : Argument} (h : Ends A P a.value)
    (hb : ∀ b, P (.bool b) → A (.typeMismatch context .number .boolean)) :
    Ends A (fun _ => True) (a.number context) := by
  obtain ⟨text, value⟩ := a
  rcases value with f | (n | b)
  · exact h
  · trivial
  · exact hb b h

theorem position_ends {context : String} {x y : Argument}
    (hx : Ends A (fun _ => True) (x.number context))
    (hy : Ends A (fun _ => True) (y.number context)) :
    Ends A (fun _ => True) (Argument.position context x y) :=
  hx.bind fun _ _ => hy.bind fun _ _ => trivial

end Argument

namespace Param

/-- The argument is written as the parameter wants it: the name of a color, or an expression that
passes as a number. -/
def Fits : Param → Expr → Prop
  | .color, e => ∃ s c, e = .text s ∧ Color.ofName? s = some c
  | .numeric, e => e.isNumeric .control = true

/-- The argument gives what the parameter wants, or a fault with `A`. -/
def Accepts (A : RunFault → Prop) (context : String) : Param → Argument → Prop
  | .color, a => Ends A (fun _ => True) a.color
  | .numeric, a => Ends A (fun _ => True) (a.number context)

theorem check_eq_ok_iff {name : String} {position : Nat} {p : Param} {e : Expr} :
    p.check name position e = .ok () ↔ p.Fits e := by
  cases p with
  | color =>
    cases e with
    | text s =>
      simp only [check, Expr.text?, Fits]
      cases h : Color.ofName? s <;> simp [h]
    | _ => simp [check, Expr.text?, Fits]
  | numeric =>
    simp only [check, Fits]
    split <;> simp_all

theorem checkEach_eq_ok_iff {name : String} {ps : List Param} :
    ∀ {position : Nat} {es : List Expr}, es.length = ps.length →
      (checkEach name position ps es = .ok () ↔ List.Forall₂ Fits ps es) := by
  induction ps with
  | nil =>
    intro position es hl
    rw [List.length_eq_zero_iff.mp hl]
    simp [checkEach]
  | cons p ps ih =>
    intro position es hl
    cases es with
    | nil => cases hl
    | cons e es =>
      have hes : checkEach name (position + 1) ps es = .ok () ↔ _ := ih (Nat.succ.inj hl)
      have he : p.check name position e = .ok () ↔ _ := check_eq_ok_iff
      rw [List.forall₂_cons, ← he, ← hes, checkEach]
      cases p.check name position e <;> simp

/-- Arguments pass if there is one for every parameter and each of them fits. -/
theorem checkAll_eq_ok_iff {name : String} {ps : List Param} {es : List Expr} :
    checkAll name ps es = .ok () ↔ List.Forall₂ Fits ps es := by
  unfold checkAll
  split
  · rename_i hl
    constructor
    · intro h
      cases h
    · intro h
      exact absurd h.length_eq.symm hl
  · rename_i hl
    exact checkEach_eq_ok_iff (Decidable.not_not.mp hl)

/-- A color that fits is a color; so only what the numbers come to is left to ask. -/
theorem accepts_of_checkAll {w : Studio} {name context : String} {ps : List Param}
    {es : List Expr} (hc : checkAll name ps es = .ok ())
    (hn : ∀ e, (.numeric, e) ∈ ps.zip es → e.isNumeric .control = true →
      Ends A (fun _ => True) (Argument.number context ⟨e.text?, e.eval w⟩)) :
    List.Forall₂ (Accepts A context) ps (es.map fun e => ⟨e.text?, e.eval w⟩) := by
  obtain ⟨hlen, hfits⟩ := List.forall₂_iff_zip.mp (checkAll_eq_ok_iff.mp hc)
  rw [List.forall₂_map_right_iff, List.forall₂_iff_zip]
  refine ⟨hlen, @fun p e hmem => ?_⟩
  have hfit := hfits hmem
  cases p with
  | color =>
    obtain ⟨s, c, rfl, hs⟩ := hfit
    simp only [Accepts, Argument.color, Expr.text?, hs]
    trivial
  | numeric => exact hn e hmem hfit

end Param

/-- A query that is asked with good arguments answers with its type. -/
theorem Query.answer_ends {w : Studio} {q : Query} {args : List Argument}
    (h : List.Forall₂ (Param.Accepts A q.keyword) q.params args) :
    Ends A (fun v => v.ty = q.ty) (q.answer w args) := by
  cases q with
  | actualX | actualY | canvasSize => cases h; rfl
  | colorCount =>
    obtain _ | ⟨hc, _ | ⟨hx, _ | ⟨hy, _ | ⟨hx', _ | ⟨hy', _ | _⟩⟩⟩⟩⟩ := h
    exact hc.bind fun _ _ => (Argument.position_ends hx hy).bind fun _ _ =>
      (Argument.position_ends hx' hy').bind fun _ _ => rfl
  | isBrushColor =>
    obtain _ | ⟨hc, _ | _⟩ := h
    exact hc.bind fun _ _ => rfl
  | isBrushSize =>
    obtain _ | ⟨hn, _ | _⟩ := h
    exact hn.bind fun _ _ => rfl
  | isCanvasColor =>
    obtain _ | ⟨hc, _ | ⟨hx, _ | ⟨hy, _ | _⟩⟩⟩ := h
    exact hc.bind fun _ _ => (Argument.position_ends hx hy).bind fun _ _ => rfl

theorem Query.answer_of_length_ne {w : Studio} {q : Query} {args : List Argument}
    (h : args.length ≠ q.params.length) :
    q.answer w args = .error (.argumentCount q.keyword q.params.length args.length) := by
  unfold answer
  split
  case h_8 => rfl
  all_goals exact absurd rfl h

end Easel
