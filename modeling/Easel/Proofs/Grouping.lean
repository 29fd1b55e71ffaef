import Easel.Proofs.Statements
import Easel.Proofs.Typing

/-!
# Easel.Proofs.Grouping

Parentheses put operands together and mean nothing else. `Expr.ungroup` takes them out of an
expression, those in the arguments of queries too; what the parser has read passes the same tests
without them and has the same value or fault (`Expr.groups_mean_nothing`).

* `Expr.passes_ungroup_iff`: the tests look through parentheses, whatever the expression.
* `Param.Fits.text?_ungroup`: an argument that has passed its check is a string literal without its
  parentheses only if it was one with them. Evaluation needs this, because a color must stand there
  bare.
* `Expr.Normal.eval_ungroup`: and so a checked expression has the same value or fault.
-/

namespace Easel
namespace Expr

mutual

/-- The expression with what stands in every group in place of the group. -/
def ungroup : Expr → Expr
  | .number n => .number n
  | .bool b => .bool b
  | .text s => .text s
  | .var x => .var x
  | .unary op e => .unary op (ungroup e)
  | .binary l op r => .binary (ungroup l) op (ungroup r)
  | .group e => ungroup e
  | .call q args => .call q (ungroupAll args)

def ungroupAll : List Expr → List Expr
  | [] => []
  | e :: es => ungroup e :: ungroupAll es

end

theorem ungroupAll_eq_map (es : List Expr) : ungroupAll es = es.map ungroup := by
  induction es with
  | nil => rfl
  | cons e es ih => rw [ungroupAll, ih, List.map_cons]

/-! ## The nodes of an expression -/

theorem nodesAll_eq_flatMap (es : List Expr) : nodesAll es = es.flatMap nodes := by
  induction es with
  | nil => rfl
  | cons e es ih => rw [nodesAll, ih, List.flatMap_cons]

theorem group_not_mem_ungroup (e : Expr) : ∀ inner, .group inner ∉ e.ungroup.nodes := by
  induction e using Expr.induct with
  | number n => simp [ungroup, nodes]
  | bool b => simp [ungroup, nodes]
  | text s => simp [ungroup, nodes]
  | var x => simp [ungroup, nodes]
  | unary op e ih => simpa [ungroup, nodes] using ih
  | binary l op r ihl ihr => simpa [ungroup, nodes, forall_and] using ⟨ihl, ihr⟩
  | group e ih => exact ih
  | call q args ih =>
    intro inner
    simpa [ungroup, nodes, ungroupAll_eq_map, nodesAll_eq_flatMap] using fun e he => ih e he inner

theorem Normal.of_mem_nodes {e : Expr} (h : e.Normal) : ∀ e' ∈ e.nodes, e'.Normal := by
  induction h with
  | number => simpa [nodes] using .number
  | bool => simpa [nodes] using .bool
  | text => simpa [nodes] using .text
  | var => simpa [nodes] using .var
  | unary hn ho ih =>
    rw [nodes, List.forall_mem_cons]
    exact ⟨.unary hn ho, ih⟩
  | binary hl hr hol hor ihl ihr =>
    rw [nodes, List.forall_mem_cons, List.forall_mem_append]
    exact ⟨.binary hl hr hol hor, ihl, ihr⟩
  | group hn ih =>
    rw [nodes, List.forall_mem_cons]
    exact ⟨.group hn, ih⟩
  | call hargs hc ih =>
    rw [nodes, List.forall_mem_cons, nodesAll_eq_flatMap]
    refine ⟨.call hargs hc, fun e' he' => ?_⟩
    obtain ⟨e, he, he'⟩ := List.mem_flatMap.mp he'
    exact ih e he e' he'

end Expr

theorem Action.Vetted.normal {a : Action} (h : a.Vetted) : ∀ e ∈ a.exprs, e.Normal := by
  cases h with
  | assign hn | goTo hn | discard hn => simpa [exprs] using hn
  | command hn => exact hn
  | label => simp [exprs]

/-- Whatever stands in a parsed program has been checked. -/
theorem Program.normal_of_parse {ts : List Token} {p : Program} (h : parse ts = .ok p) :
    ∀ e ∈ p.nodes, e.Normal := by
  intro e he
  obtain ⟨st, hst, he⟩ := List.mem_flatMap.mp he
  rw [Expr.nodesAll_eq_flatMap] at he
  obtain ⟨top, htop, he⟩ := List.mem_flatMap.mp he
  exact ((vetted_of_parse h st hst).normal top htop).of_mem_nodes e he

/-! ## The tests -/

namespace Expr

variable {place : Place} {t : Ty}

theorem passes_ungroup_iff (e : Expr) :
    ∀ {t : Ty}, e.ungroup.Passes place t ↔ e.Passes place t := by
  induction e using Expr.induct with
  | number n => exact Iff.rfl
  | bool b => exact Iff.rfl
  | text s => exact Iff.rfl
  | var x => exact Iff.rfl
  | unary op e ih =>
    intro t
    rw [ungroup, passes_unary_iff, passes_unary_iff, ih]
  | binary l op r ihl ihr =>
    intro t
    simp only [ungroup, passes_binary_iff, ihl, ihr]
  | group e ih =>
    intro t
    rw [ungroup, passes_group_iff, ih]
  | call q args _ =>
    intro t
    rw [ungroup, passes_call_iff, passes_call_iff]

theorem isNumeric_ungroup (place : Place) (e : Expr) :
    e.ungroup.isNumeric place = e.isNumeric place :=
  Bool.eq_iff_iff.mpr (e.passes_ungroup_iff (t := .number))

theorem isBoolean_ungroup (place : Place) (e : Expr) :
    e.ungroup.isBoolean place = e.isBoolean place :=
  Bool.eq_iff_iff.mpr (e.passes_ungroup_iff (t := .boolean))

theorem shape?_ungroup (place : Place) (e : Expr) : e.ungroup.shape? place = e.shape? place := by
  rw [shape?, shape?, isNumeric_ungroup, isBoolean_ungroup]

theorem text?_of_passes {e : Expr} (h : e.Passes place t) : e.text? = none := by
  cases e with
  | text s => exact absurd h not_passes_text
  | _ => rfl

end Expr

/-! ## Evaluation -/

/-- A color stands bare, and a number is no text, in parentheses or not. -/
theorem Param.Fits.text?_ungroup {p : Param} {e : Expr} (h : p.Fits e) :
    e.ungroup.text? = e.text? := by
  cases p with
  | color =>
    obtain ⟨s, c, rfl, _⟩ := h
    rfl
  | numeric =>
    have hp : e.Passes .control .number := h
    rw [Expr.text?_of_passes hp, Expr.text?_of_passes (e.passes_ungroup_iff.mpr hp)]

theorem Param.exists_fits {ps : List Param} {es : List Expr} (h : List.Forall₂ Fits ps es)
    {e : Expr} (he : e ∈ es) : ∃ p : Param, p.Fits e := by
  induction h with
  | nil => cases he
  | @cons p _ _ _ hp _ ih =>
    rcases List.mem_cons.mp he with rfl | he
    · exact ⟨p, hp⟩
    · exact ih he

namespace Expr

theorem Normal.eval_ungroup (w : Studio) {e : Expr} (h : e.Normal) :
    e.ungroup.eval w = e.eval w := by
  induction h with
  | number => rfl
  | bool => rfl
  | text => rfl
  | var => rfl
  | unary _ _ ih => rw [ungroup, eval_unary, eval_unary, ih]
  | binary _ _ _ _ ihl ihr => rw [ungroup, eval_binary, eval_binary, ihl, ihr]
  | group _ ih => rw [ungroup, eval_group, ih]
  | @call q args _ hc ih =>
    have hargs : (args.map ungroup).map (fun e => Argument.mk e.text? (e.eval w)) =
        args.map fun e => ⟨e.text?, e.eval w⟩ := by
      rw [List.map_map]
      refine List.map_congr_left fun e he => ?_
      obtain ⟨p, hp⟩ := Param.exists_fits (Param.checkAll_eq_ok_iff.mp hc) he
      simp only [Function.comp_apply, hp.text?_ungroup, ih e he]
    rw [ungroup, eval_call, eval_call, ungroupAll_eq_map, hargs]

/-- Without its groups the expression passes the same tests, and has the same value or fault. -/
structure Transparent (e : Expr) : Prop where
  numeric : ∀ place, e.ungroup.isNumeric place = e.isNumeric place
  boolean : ∀ place, e.ungroup.isBoolean place = e.isBoolean place
  shape : ∀ place, e.ungroup.shape? place = e.shape? place
  eval : ∀ w, e.ungroup.eval w = e.eval w

theorem Normal.transparent {e : Expr} (h : e.Normal) : e.Transparent where
  numeric place := isNumeric_ungroup place e
  boolean place := isBoolean_ungroup place e
  shape place := shape?_ungroup place e
  eval w := h.eval_ungroup w

/-- To take out the groups leaves none of them, and changes neither the tests nor the value of what
the parser has read: of an expression, and of whatever stands in a program. -/
theorem groups_mean_nothing :
    (∀ e inner : Expr, .group inner ∉ e.ungroup.nodes) ∧
      (∀ e : Expr, e.Parsed → e.Transparent) ∧
      ∀ (ts : List Token) (p : Program), Program.parse ts = .ok p → ∀ e ∈ p.nodes,
        e.Transparent := by
  refine ⟨group_not_mem_ungroup, fun e he => he.normal.transparent, ?_⟩
  intro ts p hp e he
  exact (Program.normal_of_parse hp e he).transparent

/-- Without its groups the difference is a longer chain, and so is the argument of the query. -/
theorem groups_mean_nothing_in_chain :
    ∃ (e : Expr) (ts : List Token) (p : Program),
      e = .binary (.group (.binary (.number 7) (.arith .sub) (.group (.number 2)))) (.arith .sub)
        (.number 3) ∧
      e.ungroup = .binary (.binary (.number 7) (.arith .sub) (.number 2)) (.arith .sub)
        (.number 3) ∧
      e.Parsed ∧ Program.parse ts = .ok p ∧ p = [⟨1, .discard (.call .isBrushSize [e])⟩] ∧
      e.Transparent ∧ (Expr.call .isBrushSize [e]).Transparent := by
  let e : Expr := .binary (.group (.binary (.number 7) (.arith .sub) (.group (.number 2))))
    (.arith .sub) (.number 3)
  let inner : List Token :=
    [⟨.openParen, "(", 1⟩, ⟨.number 7, "7", 1⟩, ⟨.operator (.arith .sub), "-", 1⟩,
      ⟨.openParen, "(", 1⟩, ⟨.number 2, "2", 1⟩, ⟨.closeParen, ")", 1⟩, ⟨.closeParen, ")", 1⟩,
      ⟨.operator (.arith .sub), "-", 1⟩, ⟨.number 3, "3", 1⟩]
  let ts : List Token :=
    ⟨.query .isBrushSize, "IsBrushSize", 1⟩ :: ⟨.openParen, "(", 1⟩ ::
      (inner ++ [⟨.closeParen, ")", 1⟩])
  have he : e.Parsed := ⟨⟨inner, "", 1⟩, ⟨[], "", 1⟩, rfl⟩
  have hp : Program.parse ts = .ok [⟨1, .discard (.call .isBrushSize [e])⟩] := rfl
  have hmem : .call .isBrushSize [e] ∈ Program.nodes [⟨1, .discard (.call .isBrushSize [e])⟩] := by
    simp [Program.nodes, Action.exprs, nodesAll, nodes]
  obtain ⟨_, hexpr, hprog⟩ := groups_mean_nothing
  exact ⟨e, ts, _, rfl, rfl, he, hp, rfl, hexpr e he, hprog ts _ hp _ hmem⟩

-- A color in parentheses is no color. The parser reads no such argument.
example : eval (.blank 4) (.call .isBrushColor [.group (.text "Red")]) = .error .unexpectedString ∧
    eval (.blank 4) (ungroup (.call .isBrushColor [.group (.text "Red")])) = .ok (.bool false) :=
  ⟨rfl, rfl⟩

end Expr
end Easel
