import Easel.Proofs.Typing

/-!
# Easel.Proofs.Queries

What the place of an expression decides. An expression passes where control depends on it exactly
when it passes as a value and has no query in it, at any depth (`Expr.control_iff_queryFree`).

* `Expr.QueryFree`, with one equation for every operator.
* `Expr.passes_control_iff`: both tests at once, along the tree.
-/

namespace Easel
namespace Expr

/-- No query stands anywhere in the expression. -/
def QueryFree (e : Expr) : Prop := ∀ q args, .call q args ∉ e.nodes

theorem queryFree_unary_iff {op : UnaryOp} {e : Expr} :
    (Expr.unary op e).QueryFree ↔ e.QueryFree := by
  simp [QueryFree, nodes]

theorem queryFree_binary_iff {l r : Expr} {op : BinaryOp} :
    (Expr.binary l op r).QueryFree ↔ l.QueryFree ∧ r.QueryFree := by
  simp [QueryFree, nodes, forall_and]

theorem queryFree_group_iff {e : Expr} : (Expr.group e).QueryFree ↔ e.QueryFree := by
  simp [QueryFree, nodes]

theorem not_queryFree_call {q : Query} {args : List Expr} : ¬ (Expr.call q args).QueryFree :=
  fun h => h q args (by simp [nodes])

/-- The place is looked at where a query stands and nowhere else. -/
theorem passes_control_iff (e : Expr) :
    ∀ {t : Ty}, e.Passes .control t ↔ e.Passes .value t ∧ e.QueryFree := by
  induction e using Expr.induct with
  | number n => intro t; cases t <;> simp [Passes, isNumeric, isBoolean, QueryFree, nodes]
  | bool b => intro t; cases t <;> simp [Passes, isNumeric, isBoolean, QueryFree, nodes]
  | text s => intro t; simp [not_passes_text]
  | var x => intro t; cases t <;> simp [Passes, isNumeric, isBoolean, QueryFree, nodes]
  | unary op e ih =>
    intro t
    rw [passes_unary_iff, passes_unary_iff, ih, queryFree_unary_iff, and_assoc]
  | binary l op r ihl ihr =>
    intro t
    rw [passes_binary_iff, passes_binary_iff, queryFree_binary_iff]
    constructor
    · rintro ⟨hty, a, ha, hl, hr⟩
      obtain ⟨hl, hql⟩ := ihl.mp hl
      obtain ⟨hr, hqr⟩ := ihr.mp hr
      exact ⟨⟨hty, a, ha, hl, hr⟩, hql, hqr⟩
    · rintro ⟨⟨hty, a, ha, hl, hr⟩, hql, hqr⟩
      exact ⟨hty, a, ha, ihl.mpr ⟨hl, hql⟩, ihr.mpr ⟨hr, hqr⟩⟩
  | group e ih =>
    intro t
    rw [passes_group_iff, passes_group_iff, ih, queryFree_group_iff]
  | call q args ih =>
    intro t
    simp [passes_call_iff, not_queryFree_call]

/-- Where control depends on an expression, it is tested as a value is, and no query is let in. -/
theorem control_iff_queryFree (e : Expr) :
    (e.isNumeric .control = true ↔ e.isNumeric .value = true ∧ e.QueryFree) ∧
      (e.isBoolean .control = true ↔ e.isBoolean .value = true ∧ e.QueryFree) := by
  constructor
  · exact e.passes_control_iff (t := .number)
  · exact e.passes_control_iff (t := .boolean)

end Expr
end Easel
