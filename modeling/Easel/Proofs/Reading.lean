import Easel.Expr.Parse
import Easel.Proofs.Stream

/-!
# Easel.Proofs.Reading

What it takes for the expression parsers to succeed, without fuel. `Reads g s s'` says that the
tokens between `s` and `s'` are read as what the goal `g` asks for; it has one rule for every way
in which a parser can succeed.

* `Reads.shrinks`: a goal takes at least one token, a chain of operators may take none.
-/

namespace Easel

namespace TokenKind

/-- The expression that a token is by itself. -/
def leaf? : TokenKind → Option Expr
  | .number n => some (.number n)
  | .bool b => some (.bool b)
  | .text s => some (.text s)
  | .name x => some (.var x)
  | _ => none

def unaryOp? : TokenKind → Option UnaryOp
  | .not => some .not
  | .operator (.arith .sub) => some .neg
  | _ => none

/-- Whether an operand is known by this kind; the others are looked up as queries. -/
def opensOperand (k : TokenKind) : Bool :=
  k.leaf?.isSome || k.unaryOp?.isSome || k == .openParen

theorem binaryOp?_eq_some_iff {k : TokenKind} {op : BinaryOp} :
    k.binaryOp? = some op ↔ k = .operator op := by
  cases k <;> simp [binaryOp?]

end TokenKind

/-- What a parser of expressions is asked for, and what it finds. -/
inductive Goal where
  /-- An expression whose operators hold their left operands at least as strongly as `power`. -/
  | expr (power : Nat) (e : Expr)
  /-- The operators that follow `lhs`, which make it part of `e`. -/
  | operators (power : Nat) (lhs e : Expr)
  | operand (e : Expr)
  /-- The arguments of `name`, whose keyword stands on `line`, with their parentheses. -/
  | arguments (name : String) (line : Nat) (es : List Expr)
  | moreArguments (name : String) (line : Nat) (es : List Expr)

/-- `Reads g s s'`: the tokens from `s` up to `s'` are read as what `g` asks for. -/
inductive Reads : Goal → Stream → Stream → Prop where
  | expr {power : Nat} {e₀ e : Expr} {s s₀ s' : Stream} :
      Reads (.operand e₀) s s₀ → Reads (.operators power e₀ e) s₀ s' →
      Reads (.expr power e) s s'
  | stop {power : Nat} {lhs : Expr} {s : Stream} :
      s.Stops power → Reads (.operators power lhs lhs) s s
  | operator {power : Nat} {lhs rhs e : Expr} {op : BinaryOp} {s m s' : Stream} :
      s.current.kind = .operator op → power ≤ op.leftPower →
      Reads (.expr op.rightPower rhs) s.advance m →
      Reads (.operators power (.binary lhs op rhs) e) m s' →
      Reads (.operators power lhs e) s s'
  | leaf {e : Expr} {s : Stream} :
      s.current.kind.leaf? = some e → Reads (.operand e) s s.advance
  | unary {op : UnaryOp} {e : Expr} {s s' : Stream} :
      s.current.kind.unaryOp? = some op → Reads (.expr UnaryOp.power e) s.advance s' →
      Reads (.operand (.unary op e)) s s'
  | group {e : Expr} {s m : Stream} :
      s.current.kind = .openParen → Reads (.expr 0 e) s.advance m →
      m.current.kind = .closeParen → Reads (.operand (.group e)) s m.advance
  | call {q : Query} {args : List Expr} {s s' : Stream} :
      s.current.kind.opensOperand = false → Query.ofKeyword? s.current.lexeme = some q →
      Reads (.arguments q.keyword s.current.line args) s.advance s' →
      Param.checkAll q.keyword q.params args = .ok () →
      Reads (.operand (.call q args)) s s'
  | noArguments {name : String} {line : Nat} {s : Stream} :
      s.current.kind = .openParen → s.advance.current.kind = .closeParen →
      Reads (.arguments name line []) s s.advance.advance
  | arguments {name : String} {line : Nat} {es : List Expr} {s s' : Stream} :
      s.current.kind = .openParen → s.advance.current.kind ≠ .closeParen →
      Reads (.moreArguments name line es) s.advance s' → Reads (.arguments name line es) s s'
  | lastArgument {name : String} {line : Nat} {e : Expr} {s m : Stream} :
      Reads (.expr 0 e) s m → m.current.kind = .closeParen →
      Reads (.moreArguments name line [e]) s m.advance
  | comma {name : String} {line : Nat} {e : Expr} {es : List Expr} {s m s' : Stream} :
      Reads (.expr 0 e) s m → m.current.kind = .comma →
      m.advance.current.kind ≠ .closeParen → m.advance.current.kind ≠ .newLine →
      m.advance.current.kind ≠ .endOfInput →
      Reads (.moreArguments name line es) m.advance s' →
      Reads (.moreArguments name line (e :: es)) s s'

/-- Only operators may be absent. -/
def Goal.Shrinks (s s' : Stream) : Goal → Prop
  | .operators _ _ _ => s'.rest.length ≤ s.rest.length
  | _ => s'.rest.length < s.rest.length

theorem Reads.shrinks {g : Goal} {s s' : Stream} (h : Reads g s s') : g.Shrinks s s' := by
  induction h with
  | expr _ _ ih₀ ih => exact Nat.lt_of_le_of_lt ih ih₀
  | stop _ => exact Nat.le_refl _
  | @operator _ _ _ _ _ s s₁ s' _ _ _ _ ih₁ ih =>
    have := s.length_advance_le
    simp only [Goal.Shrinks] at ih₁ ih ⊢
    omega
  | leaf hk => exact Stream.length_advance_lt fun h => by simp [h, TokenKind.leaf?] at hk
  | @group _ s s₁ _ _ _ ih =>
    have := s.length_advance_le
    have := s₁.length_advance_le
    simp only [Goal.Shrinks] at ih ⊢
    omega
  | @unary _ _ s _ _ _ ih => exact Nat.lt_of_lt_of_le ih s.length_advance_le
  | @call _ _ s _ _ _ _ _ ih => exact Nat.lt_of_lt_of_le ih s.length_advance_le
  | @noArguments _ _ s hk _ =>
    exact Nat.lt_of_le_of_lt s.advance.length_advance_le (Stream.length_advance_lt (by simp [hk]))
  | @arguments _ _ _ s _ _ _ _ ih => exact Nat.lt_of_lt_of_le ih s.length_advance_le
  | @lastArgument _ _ _ _ s₁ _ _ ih => exact Nat.lt_of_le_of_lt s₁.length_advance_le ih
  | @comma _ _ _ _ _ s₁ _ _ _ _ _ _ _ ih₁ ih =>
    have := s₁.length_advance_le
    simp only [Goal.Shrinks] at ih₁ ih ⊢
    omega

end Easel
