import Easel.Program.Parse
import Easel.Proofs.Fuel

/-!
# Easel.Proofs.Renumber

A parser passes the lines of its tokens on and never looks at them: on a stream whose lines were
renumbered it finds what it would have found before, with the lines renumbered
(`Parser.commutes_program`). The renumbering is any function on lines.

`Parser.Commutes` says this of one parser. There is a rule for `bind`, one for every parser that the
others are made of, and an induction on the fuel for the parsers of expressions, which call each
other (`Parser.ExprCommutes`).
-/

namespace Easel

variable {f : Nat → Nat}

/-! ## New lines for tokens, statements and diagnostics -/

def Token.renumber (f : Nat → Nat) (t : Token) : Token := { t with line := f t.line }

@[simp] theorem Token.renumber_kind (t : Token) : (t.renumber f).kind = t.kind := rfl
@[simp] theorem Token.renumber_lexeme (t : Token) : (t.renumber f).lexeme = t.lexeme := rfl
@[simp] theorem Token.renumber_line (t : Token) : (t.renumber f).line = f t.line := rfl

def Diagnostic.renumber (f : Nat → Nat) (d : Diagnostic) : Diagnostic :=
  { d with line := f d.line }

def Stmt.renumber (f : Nat → Nat) (st : Stmt) : Stmt := { st with line := f st.line }

def Program.renumber (f : Nat → Nat) (p : Program) : Program := p.map (Stmt.renumber f)

namespace Stream

def renumber (f : Nat → Nat) (s : Stream) : Stream :=
  ⟨s.rest.map (Token.renumber f), s.endLexeme, f s.endLine⟩

variable (s : Stream)

@[simp] theorem renumber_current : (s.renumber f).current = s.current.renumber f := by
  obtain ⟨_ | ⟨t, ts⟩, lexeme, line⟩ := s <;> rfl

@[simp] theorem renumber_following : (s.renumber f).following = s.following.renumber f := by
  obtain ⟨_ | ⟨t, _ | ⟨u, us⟩⟩, lexeme, line⟩ := s <;> rfl

@[simp] theorem renumber_advance : (s.renumber f).advance = s.advance.renumber f := by
  simp [renumber, advance]

theorem renumber_length : (s.renumber f).rest.length = s.rest.length := List.length_map _

/-- The lines do not count for what a stream is granted. -/
theorem renumber_budget_fuel : Parser.budget.fuel (s.renumber f) = Parser.budget.fuel s := by
  simp only [Parser.budget, fuel, renumber_length]

theorem renumber_budget_statements :
    Parser.budget.statements (s.renumber f) = Parser.budget.statements s := by
  simp only [Parser.budget, renumber_length]

/-- An end mark that is missing is put on the line of the last token, or on the first line if there
is none. -/
theorem ofTokens_renumber {ts : List Token} (hf : ts = [] → f 1 = 1) :
    ofTokens (ts.map (Token.renumber f)) = (ofTokens ts).renumber f := by
  have hkind : (fun t : Token => decide (t.kind = .endOfInput)) ∘ Token.renumber f =
      fun t => decide (t.kind = .endOfInput) := rfl
  have hkind' : (fun t : Token => decide (t.kind ≠ .endOfInput)) ∘ Token.renumber f =
      fun t => decide (t.kind ≠ .endOfInput) := rfl
  simp only [ofTokens, List.takeWhile_map, List.find?_map, hkind, hkind', List.getLast?_map]
  cases ts.find? fun t => t.kind = .endOfInput with
  | some mark => rfl
  | none =>
    cases hlast : ts.getLast? with
    | some t => rfl
    | none =>
      obtain rfl := List.getLast?_eq_none_iff.mp hlast
      simp [renumber, hf rfl]

end Stream

namespace Parser

variable {α β γ δ : Type}

/-- New lines for what a parser found and where it stopped. -/
def renumberResult (f : Nat → Nat) (g : α → β) :
    EStateM.Result Diagnostic Stream α → EStateM.Result Diagnostic Stream β
  | .ok a s => .ok (g a) (s.renumber f)
  | .error d s => .error (d.renumber f) (s.renumber f)

/-- What `q` finds on a renumbered stream is what `p` finds on the stream itself, renumbered; `g` is
the renumbering of the values. -/
structure Commutes (f : Nat → Nat) (g : α → β) (p : Parser α) (q : Parser β) : Prop where
  run : ∀ s, q (s.renumber f) = renumberResult f g (p s)

/-- The values have no lines in them. -/
abbrev Steady (f : Nat → Nat) (p q : Parser α) : Prop := Commutes f (fun a => a) p q

theorem Commutes.bind {g : α → β} {g' : γ → δ} {p : Parser α} {q : Parser β} {k : α → Parser γ}
    {k' : β → Parser δ} (hp : Commutes f g p q) (hk : ∀ a, Commutes f g' (k a) (k' (g a))) :
    Commutes f g' (p >>= k) (q >>= k') := by
  constructor
  intro s
  have hs := hp.run s
  cases h : p s with
  | ok a m =>
    rw [h] at hs
    rw [bind_of_ok h, bind_of_ok hs]
    exact (hk a).run m
  | error d m =>
    rw [h] at hs
    rw [bind_of_error h, bind_of_error hs]
    rfl

theorem commutes_pure (g : α → β) (a : α) : Commutes f g (pure a) (pure (g a)) := ⟨fun _ => rfl⟩

theorem commutes_get : Commutes f (Stream.renumber f) get get := ⟨fun _ => rfl⟩

theorem commutes_peek : Commutes f (Token.renumber f) peek peek := by
  constructor
  intro s
  show EStateM.Result.ok (s.renumber f).current _ = _
  rw [Stream.renumber_current]
  rfl

theorem commutes_next : Commutes f (Token.renumber f) next next := by
  constructor
  intro s
  show EStateM.Result.ok (s.renumber f).current (s.renumber f).advance = _
  rw [Stream.renumber_current, Stream.renumber_advance]
  rfl

theorem steady_atEnd : Steady f atEnd atEnd := by
  constructor
  intro s
  show EStateM.Result.ok (s.renumber f).rest.isEmpty _ = EStateM.Result.ok s.rest.isEmpty _
  rw [Stream.renumber, List.isEmpty_map]

theorem commutes_fail (g : α → β) (line : Nat) (fault : Fault) :
    Commutes f g (fail line fault) (fail (f line) fault) := ⟨fun _ => rfl⟩

theorem commutes_unexpected (g : α → β) (expected : String) :
    Commutes f g (unexpected expected) (unexpected expected) :=
  commutes_peek.bind fun _ => commutes_fail ..

theorem steady_eat (kind : TokenKind) : Steady f (eat kind) (eat kind) := by
  refine commutes_peek.bind fun t => ?_
  rw [Token.renumber_kind]
  split
  · exact commutes_next.bind fun _ => commutes_pure ..
  · exact commutes_pure ..

theorem steady_expect (kind : TokenKind) (expected : String) :
    Steady f (expect kind expected) (expect kind expected) := by
  refine (steady_eat kind).bind fun b => ?_
  split
  · exact commutes_unexpected ..
  · exact commutes_pure ..

theorem steady_require (line : Nat) (x : Except Fault α) :
    Steady f (require line x) (require (f line) x) := by
  cases x with
  | ok a => exact commutes_pure ..
  | error e => exact commutes_fail ..

/-! ## Expressions -/

/-- The parsers of expressions under the given fuel. -/
structure ExprCommutes (f : Nat → Nat) (fuel : Nat) : Prop where
  exprWithin : ∀ power, Steady f (exprWithin fuel power) (exprWithin fuel power)
  operators : ∀ power lhs, Steady f (operators fuel power lhs) (operators fuel power lhs)
  operand : Steady f (operand fuel) (operand fuel)
  arguments : ∀ name line, Steady f (arguments fuel name line) (arguments fuel name (f line))
  moreArguments : ∀ name line,
    Steady f (moreArguments fuel name line) (moreArguments fuel name (f line))

namespace ExprCommutes

variable {fuel : Nat}

theorem operators_succ (ih : ExprCommutes f fuel) (power : Nat) (lhs : Expr) :
    Steady f (Parser.operators (fuel + 1) power lhs) (Parser.operators (fuel + 1) power lhs) := by
  refine commutes_peek.bind fun t => ?_
  rw [Token.renumber_kind]
  split
  · exact commutes_pure ..
  · split
    · exact commutes_pure ..
    · exact commutes_next.bind fun _ => (ih.exprWithin _).bind fun _ => ih.operators ..

theorem operand_succ (ih : ExprCommutes f fuel) :
    Steady f (Parser.operand (fuel + 1)) (Parser.operand (fuel + 1)) := by
  constructor
  intro s
  have hcur := s.renumber_current (f := f)
  have hkind : (s.renumber f).current.kind = s.current.kind := by rw [hcur]; rfl
  cases hl : s.current.kind.leaf? with
  | some e =>
    rw [operand_of_leaf hl, operand_of_leaf (by rw [hkind, hl]), Stream.renumber_advance]
    rfl
  | none =>
    cases hu : s.current.kind.unaryOp? with
    | some op =>
      rw [operand_of_unary hu, operand_of_unary (by rw [hkind, hu]), Stream.renumber_advance]
      refine Commutes.run ?_ s.advance
      exact (ih.exprWithin _).bind fun _ => commutes_pure ..
    | none =>
      by_cases hp : s.current.kind = .openParen
      · rw [operand_of_group hp, operand_of_group (by rw [hkind, hp]), Stream.renumber_advance]
        refine Commutes.run ?_ s.advance
        exact (ih.exprWithin 0).bind fun _ => (steady_expect ..).bind fun _ => commutes_pure ..
      · have ho : s.current.kind.opensOperand = false := by
          simp [TokenKind.opensOperand, hl, hu, hp]
        rw [operand_of_word ho, operand_of_word (by rw [hkind, ho]), hcur, Stream.renumber_advance]
        cases hq : Query.ofKeyword? s.current.lexeme with
        | none =>
          simp only [Token.renumber_lexeme, hq]
          exact (commutes_unexpected ..).run s
        | some q =>
          simp only [Token.renumber_lexeme, hq]
          refine Commutes.run ?_ s.advance
          exact (ih.arguments ..).bind fun _ => (steady_require ..).bind fun _ => commutes_pure ..

theorem arguments_succ (ih : ExprCommutes f fuel) (name : String) (line : Nat) :
    Steady f (Parser.arguments (fuel + 1) name line)
      (Parser.arguments (fuel + 1) name (f line)) := by
  refine (steady_expect ..).bind fun _ => (steady_eat _).bind fun b => ?_
  split
  · exact commutes_pure ..
  · exact ih.moreArguments ..

theorem moreArguments_succ (ih : ExprCommutes f fuel) (name : String) (line : Nat) :
    Steady f (Parser.moreArguments (fuel + 1) name line)
      (Parser.moreArguments (fuel + 1) name (f line)) := by
  refine (ih.exprWithin 0).bind fun e => (steady_eat _).bind fun b => ?_
  split
  · refine commutes_peek.bind fun t => ?_
    rw [Token.renumber_kind]
    split
    · exact commutes_fail ..
    · exact (ih.moreArguments ..).bind fun _ => commutes_pure ..
  · refine (steady_eat _).bind fun b => ?_
    split
    · exact commutes_pure ..
    · exact commutes_peek.bind fun _ => commutes_fail ..

end ExprCommutes

theorem exprCommutes (f : Nat → Nat) (fuel : Nat) : ExprCommutes f fuel := by
  induction fuel with
  | zero =>
    refine ⟨fun _ => ?_, fun _ _ => ?_, ?_, fun _ _ => ?_, fun _ _ => ?_⟩
    · exact commutes_unexpected ..
    · exact commutes_pure ..
    · exact commutes_unexpected ..
    · exact commutes_unexpected ..
    · exact commutes_unexpected ..
  | succ fuel ih =>
    exact ⟨fun _ => ih.operand.bind fun _ => ih.operators .., ih.operators_succ, ih.operand_succ,
      ih.arguments_succ, ih.moreArguments_succ⟩

theorem steady_expr : Steady f expr expr := by
  refine commutes_get.bind fun s => ?_
  rw [Stream.renumber_budget_fuel]
  exact (exprCommutes f s.fuel).exprWithin 0

/-! ## Statements -/

theorem steady_typedExpr (line : Nat) : Steady f (typedExpr line) (typedExpr (f line)) := by
  refine steady_expr.bind fun e => ?_
  split
  · exact commutes_pure ..
  · exact commutes_fail ..

theorem steady_labelName : Steady f labelName labelName := by
  refine commutes_peek.bind fun t => ?_
  rw [Token.renumber_kind]
  split
  · exact commutes_next.bind fun _ => commutes_pure ..
  · exact commutes_unexpected ..

theorem commutes_commandStmt (c : Command) :
    Commutes f (Stmt.renumber f) (commandStmt c) (commandStmt c) := by
  refine commutes_next.bind fun t => commutes_get.bind fun s => ?_
  rw [Stream.renumber_budget_fuel]
  exact ((exprCommutes f s.fuel).arguments ..).bind fun _ =>
    (steady_require ..).bind fun _ => commutes_pure (Stmt.renumber f) _

theorem commutes_discardStmt : Commutes f (Stmt.renumber f) discardStmt discardStmt :=
  commutes_peek.bind fun _ => (steady_typedExpr _).bind fun _ => commutes_pure (Stmt.renumber f) _

theorem commutes_assignStmt (x : String) :
    Commutes f (Stmt.renumber f) (assignStmt x) (assignStmt x) :=
  commutes_next.bind fun _ => (steady_expect ..).bind fun _ => (steady_typedExpr _).bind fun _ =>
    commutes_pure (Stmt.renumber f) _

theorem commutes_labelStmt (l : String) :
    Commutes f (Stmt.renumber f) (labelStmt l) (labelStmt l) :=
  commutes_next.bind fun _ => commutes_pure (Stmt.renumber f) _

theorem commutes_goToStmt : Commutes f (Stmt.renumber f) goToStmt goToStmt := by
  refine commutes_next.bind fun t => (steady_expect ..).bind fun _ =>
    steady_labelName.bind fun l => (steady_expect ..).bind fun _ =>
    (steady_expect ..).bind fun _ => steady_expr.bind fun e => (steady_expect ..).bind fun _ => ?_
  split
  · exact commutes_pure (Stmt.renumber f) _
  · exact commutes_fail ..

theorem commutes_stmt : Commutes f (Stmt.renumber f) stmt stmt := by
  refine commutes_get.bind fun s => ?_
  simp only [Stream.renumber_current, Stream.renumber_following, Token.renumber_lexeme,
    Token.renumber_kind]
  split
  · exact commutes_commandStmt _
  · exact commutes_discardStmt
  · split
    · exact commutes_assignStmt _
    · exact commutes_labelStmt _
    · exact commutes_labelStmt _
    · exact commutes_goToStmt
    · exact commutes_fail ..

theorem steady_skipNewLines : Steady f skipNewLines skipNewLines := by
  constructor
  intro s
  show EStateM.Result.ok () _ = EStateM.Result.ok () _
  simp only [Stream.renumber, List.dropWhile_map]
  rfl

theorem steady_endOfStmt : Steady f endOfStmt endOfStmt := by
  refine steady_atEnd.bind fun b => ?_
  split
  · exact commutes_pure ..
  · exact steady_expect ..

/-- Statements carry the lines of their tokens, and so do diagnostics. -/
theorem commutes_stmts (f : Nat → Nat) (fuel : Nat) :
    Commutes f (Program.renumber f) (stmts fuel) (stmts fuel) := by
  induction fuel with
  | zero => exact commutes_pure (Program.renumber f) []
  | succ fuel ih =>
    refine steady_skipNewLines.bind fun _ => steady_atEnd.bind fun b => ?_
    split
    · exact commutes_pure (Program.renumber f) []
    · exact commutes_stmt.bind fun _ => steady_endOfStmt.bind fun _ => ih.bind fun _ =>
        commutes_pure (Program.renumber f) _

theorem commutes_program : Commutes f (Program.renumber f) program program := by
  refine commutes_get.bind fun s => ?_
  rw [Stream.renumber_budget_statements]
  exact commutes_stmts f _

end Parser
end Easel
