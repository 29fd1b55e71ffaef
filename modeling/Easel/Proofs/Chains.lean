import Easel.Expr.Shape

/-!
# Easel.Proofs.Chains

The tests by plain recursion. `Expr.isNumeric` and `Expr.isBoolean` walk a chain of operators link
by link and may be done after any of them; `Expr.numeric` and `Expr.boolean` follow the tree and ask
for both operands of every operator. The two agree on every tree (`tests_eq_recursion`), so it makes
no difference where a walk breaks off, nor at which operand it goes over into a test of its own.

* `numericChain_eq`, `booleanChain_eq`: a walk, from any link on.
* `isNumeric_binary`, `isBoolean_binary`: the tests at an operator. Everything else about them is
  proved from these equations.
-/

namespace Easel
namespace Expr

variable (place : Place) (l r : Expr) (op : BinaryOp)

/-- After its first link a walk is the test of the left operand, be that a link or not. -/
theorem numericChain_eq :
    numericChain place l op r =
      if op.isArithmetic && r.isNumeric place then l.isNumeric place else false := by
  rw [numericChain.eq_def]
  split
  · split
    · rw [isNumeric]
    · rfl
  · rfl

/-- The same for logical links. The walk breaks off at any other operator, and what it goes over
into is the test for that operator. -/
theorem booleanChain_eq :
    booleanChain place l r = if r.isBoolean place then l.isBoolean place else false := by
  rw [booleanChain.eq_def]
  split
  · split
    · rw [isBoolean]
    · rfl
  · rfl

theorem isNumeric_binary :
    isNumeric place (.binary l op r) =
      (op.isArithmetic && l.isNumeric place && r.isNumeric place) := by
  rw [isNumeric, numericChain_eq]
  cases op.isArithmetic <;> cases r.isNumeric place <;> simp

theorem isBoolean_binary :
    isBoolean place (.binary l op r) =
      (op.isLogical && l.isBoolean place && r.isBoolean place ||
        op.isRelational && l.isNumeric place && r.isNumeric place ||
        op.isEquality && (l.isNumeric place && r.isNumeric place ||
          l.isBoolean place && r.isBoolean place)) := by
  cases op with
  | arith op => rw [isBoolean]; rfl
  | order op => simp [isBoolean, BinaryOp.isLogical, BinaryOp.isRelational, BinaryOp.isEquality]
  | equality op => simp [isBoolean, BinaryOp.isLogical, BinaryOp.isRelational, BinaryOp.isEquality]
  | logic op =>
    rw [isBoolean, booleanChain_eq]
    cases r.isBoolean place <;>
      simp [BinaryOp.isLogical, BinaryOp.isRelational, BinaryOp.isEquality]

/-! ## The plain recursion -/

/-- Numbers by recursion on the tree: an arithmetic operator between two of them is one. -/
def numeric (place : Place) : Expr → Bool
  | .number _ => true
  | .bool _ => false
  | .text _ => false
  | .var _ => true
  | .unary .neg e => e.numeric place
  | .unary .not _ => false
  | .binary l op r => op.isArithmetic && l.numeric place && r.numeric place
  | .group e => e.numeric place
  | .call q _ => place == .value && q.ty == .number

/-- Booleans by recursion on the tree: two of them with a logical operator between them, two numbers
that are compared, or two of either kind that are tested for equality. -/
def boolean (place : Place) : Expr → Bool
  | .number _ => false
  | .bool _ => true
  | .text _ => false
  | .var _ => true
  | .unary .neg _ => false
  | .unary .not e => e.boolean place
  | .binary l op r =>
    op.isLogical && l.boolean place && r.boolean place ||
      op.isRelational && l.numeric place && r.numeric place ||
      op.isEquality && (l.numeric place && r.numeric place || l.boolean place && r.boolean place)
  | .group e => e.boolean place
  | .call q _ => place == .value && q.ty == .boolean

/-- Both tests give the answer of the plain recursion, on every tree and wherever it stands. -/
theorem tests_eq_recursion (place : Place) (e : Expr) :
    e.isNumeric place = e.numeric place ∧ e.isBoolean place = e.boolean place := by
  induction e using Expr.induct with
  | number n => exact ⟨rfl, rfl⟩
  | bool b => exact ⟨rfl, rfl⟩
  | text s => exact ⟨rfl, rfl⟩
  | var x => exact ⟨rfl, rfl⟩
  | unary op e ih =>
    cases op with
    | neg => simp only [isNumeric, isBoolean, numeric, boolean, ih, and_self]
    | not => simp only [isNumeric, isBoolean, numeric, boolean, ih, and_self]
  | binary l op r ihl ihr =>
    obtain ⟨hln, hlb⟩ := ihl
    obtain ⟨hrn, hrb⟩ := ihr
    rw [isNumeric_binary, isBoolean_binary, numeric, boolean, hln, hlb, hrn, hrb]
    exact ⟨rfl, rfl⟩
  | group e ih => simp only [isNumeric, isBoolean, numeric, boolean, ih, and_self]
  | call q args _ => exact ⟨rfl, rfl⟩

end Expr
end Easel
