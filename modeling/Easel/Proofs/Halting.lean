import Easel.Proofs.Grammar

/-!
# Easel.Proofs.Halting

The parsers come to an end by themselves. A parser that has used up its fuel still answers
something, so it cannot be seen whether it would have gone on. A `Search` follows the same rules and
has no answer then. From some fuel on every search has an answer, and always the same one: that of
the parser, which therefore never uses up the fuel that it starts with (`Search.answers_program` and
its companions).

* `Search.Answers`: a search has an answer, the one of a parser. There is a rule for `bind` and an
  induction on the fuel for the searches of expressions (`Search.ExprAnswers`): the fuel that the
  tokens of a stream need is there at every call.
* `Search.answers_stmts`: statements are read as long as there are tokens, and each takes some.
-/

namespace Easel

/-- What a parser answers on a stream, and the place where it stops. -/
def Parser.outcome {α : Type} (p : Parser α) (s : Stream) : Except Diagnostic α × Stream :=
  match p s with
  | .ok a s' => (.ok a, s')
  | .error d s' => (.error d, s')

theorem Parser.outcome_congr {α : Type} {p q : Parser α} {s s' : Stream} (h : p s = q s') :
    p.outcome s = q.outcome s' := by
  rw [outcome, outcome, h]

theorem Parser.outcome_eq_ok_iff {α : Type} {p : Parser α} {s s' : Stream} {a : α} :
    p.outcome s = (.ok a, s') ↔ p s = .ok a s' := by
  unfold outcome
  cases p s <;> simp

/-- A parser that may have no answer, because its fuel is used up before it comes to an end. -/
abbrev Search := ExceptT Diagnostic (StateT Stream Option)

namespace Search

variable {α β : Type}

/-- The search that answers what a parser does. -/
def ofParser (p : Parser α) : Search α := fun s => some (p.outcome s)

instance : MonadLift Parser Search := ⟨ofParser⟩

/-- There is no answer when the fuel is used up. -/
instance : Fueled Search := ⟨fun _ _ => none⟩

/-- A search starts with the fuel that it is given. -/
def budget (fuel : Nat) : Budget := ⟨fun _ => fuel, fun _ => fuel⟩

/-! ## Answers -/

variable {s : Stream}

/-- The search ends on the stream and answers what the parser does. -/
def Answers (u : Search α) (p : Parser α) (s : Stream) : Prop := u s = ofParser p s

theorem Answers.bind {u : Search α} {p : Parser α} {f : α → Search β} {g : α → Parser β}
    (h : Answers u p s) (hk : ∀ a s', p s = .ok a s' → Answers (f a) (g a) s') :
    Answers (u >>= f) (p >>= g) s := by
  unfold Answers ofParser Parser.outcome at h
  show Option.bind (u s) (fun r => ExceptT.bindCont f r.1 r.2) = ofParser (p >>= g) s
  cases hp : p s with
  | ok a s' =>
    rw [h, hp, ofParser, Parser.outcome, Parser.bind_of_ok hp]
    exact hk a s' hp
  | error d s' =>
    rw [h, hp, ofParser, Parser.outcome, Parser.bind_of_error hp]
    rfl

theorem answers_lift (p : Parser α) (s : Stream) : Answers (liftM p) p s := rfl

theorem answers_pure (a : α) (s : Stream) : Answers (pure a) (pure a) s := rfl

-- What follows is known once the stream or the current token has been looked at, or the token has
-- been taken.
theorem answers_get {f : Stream → Search α} {g : Stream → Parser α} (h : Answers (f s) (g s) s) :
    Answers (liftM (get : Parser Stream) >>= f) (get >>= g) s := h

theorem answers_peek {f : Token → Search α} {g : Token → Parser α}
    (h : Answers (f s.current) (g s.current) s) :
    Answers (liftM Parser.peek >>= f) (Parser.peek >>= g) s := h

theorem answers_next {f : Token → Search α} {g : Token → Parser α}
    (h : Answers (f s.current) (g s.current) s.advance) :
    Answers (liftM Parser.next >>= f) (Parser.next >>= g) s := h

/-! ## Expressions -/

/-- Under the fuel `fuel` the searches of expressions answer what the parsers do under the fuel `n`,
on every stream whose tokens need no more than either. -/
structure ExprAnswers (fuel n : Nat) : Prop where
  exprWithin : ∀ power (s : Stream), 2 * s.rest.length + 3 ≤ min fuel n →
    Answers (Rule.exprWithin fuel power) (Parser.exprWithin n power) s
  operators : ∀ power lhs (s : Stream), 2 * s.rest.length + 2 ≤ min fuel n →
    Answers (Rule.operators fuel power lhs) (Parser.operators n power lhs) s
  operand : ∀ s : Stream, 2 * s.rest.length + 2 ≤ min fuel n →
    Answers (Rule.operand fuel) (Parser.operand n) s
  arguments : ∀ name line (s : Stream), (Goal.arguments name line []).need s ≤ min fuel n →
    Answers (Rule.arguments fuel name line) (Parser.arguments n name line) s
  moreArguments : ∀ name line (s : Stream), 2 * s.rest.length + 4 ≤ min fuel n →
    Answers (Rule.moreArguments fuel name line) (Parser.moreArguments n name line) s

namespace ExprAnswers

variable {fuel n : Nat}

theorem length_lt_of_exprWithin {power : Nat} {e : Expr} {s' : Stream}
    (hn : 2 * s.rest.length + 3 ≤ n) (h : Parser.exprWithin n power s = .ok e s') :
    s'.rest.length < s.rest.length :=
  (Parser.sound n (.expr power e) s s' hn h).shrinks

theorem exprWithin_succ (ih : ExprAnswers fuel n) (power : Nat) (s : Stream)
    (hn : 2 * s.rest.length + 3 ≤ min (fuel + 1) (n + 1)) :
    Answers (Rule.exprWithin (fuel + 1) power) (Parser.exprWithin (n + 1) power) s := by
  rw [Parser.exprWithin, Rule.exprWithin, Rule.exprWithin]
  refine (ih.operand s (by omega)).bind fun e m he => ih.operators power e m ?_
  have hr : Reads (.operand e) s m :=
    Parser.sound n (.operand e) s m (by simp only [Goal.need]; omega) he
  have hlt : m.rest.length < s.rest.length := hr.shrinks
  omega

theorem operators_succ (ih : ExprAnswers fuel n) (power : Nat) (lhs : Expr) (s : Stream)
    (hn : 2 * s.rest.length + 2 ≤ min (fuel + 1) (n + 1)) :
    Answers (Rule.operators (fuel + 1) power lhs) (Parser.operators (n + 1) power lhs) s := by
  rw [Parser.operators, Rule.operators, Rule.operators]
  refine answers_peek ?_
  cases hk : s.current.kind.binaryOp? with
  | none => exact answers_pure ..
  | some op =>
    have hop := TokenKind.binaryOp?_eq_some_iff.mp hk
    have hlt : s.advance.rest.length < s.rest.length := Stream.length_advance_lt (by simp [hop])
    dsimp only
    split
    · exact answers_pure ..
    · refine answers_next ?_
      refine (ih.exprWithin op.rightPower s.advance (by omega)).bind fun rhs m hr => ?_
      have := length_lt_of_exprWithin (by omega) hr
      exact ih.operators power _ m (by omega)

/-- The word may be the spelling of the end mark, which is not taken; then no list of arguments
follows. -/
theorem query_succ (ih : ExprAnswers fuel n) (s : Stream)
    (hn : 2 * s.rest.length + 2 ≤ min (fuel + 1) (n + 1)) :
    Answers (Rule.query (Rule.arguments fuel) s.current)
      (Rule.query (Parser.arguments n) s.current) s := by
  unfold Rule.query
  cases Query.ofKeyword? s.current.lexeme with
  | none => exact answers_lift ..
  | some q =>
    refine answers_next ?_
    refine (ih.arguments _ _ s.advance (Goal.need_arguments_le (by omega))).bind fun args m _ => ?_
    exact (answers_lift _ m).bind fun _ m' _ => answers_pure ..

theorem operand_succ (ih : ExprAnswers fuel n) (s : Stream)
    (hn : 2 * s.rest.length + 2 ≤ min (fuel + 1) (n + 1)) :
    Answers (Rule.operand (fuel + 1)) (Parser.operand (n + 1)) s := by
  have hadvance : s.current.kind ≠ .endOfInput → 2 * s.advance.rest.length + 3 ≤ min fuel n := by
    intro hne
    have hlt := Stream.length_advance_lt hne
    omega
  refine answers_peek ?_
  cases hk : s.current.kind with
  | number n | bool b | text x | name x => exact answers_next (answers_pure ..)
  | openParen =>
    refine answers_next ((ih.exprWithin 0 _ (hadvance (hk ▸ nofun))).bind fun e m _ => ?_)
    exact (answers_lift _ m).bind fun _ m' _ => answers_pure ..
  | not =>
    have harg := ih.exprWithin UnaryOp.power _ (hadvance (hk ▸ nofun))
    exact answers_next (harg.bind fun e m _ => answers_pure ..)
  | operator op =>
    cases op with
    | arith a =>
      cases a with
      | sub =>
        have harg := ih.exprWithin UnaryOp.power _ (hadvance (hk ▸ nofun))
        exact answers_next (harg.bind fun e m _ => answers_pure ..)
      | _ => exact ih.query_succ s hn
    | _ => exact ih.query_succ s hn
  | _ => exact ih.query_succ s hn

theorem arguments_succ (ih : ExprAnswers fuel n) (name : String) (line : Nat) (s : Stream)
    (hn : (Goal.arguments name line []).need s ≤ min (fuel + 1) (n + 1)) :
    Answers (Rule.arguments (fuel + 1) name line) (Parser.arguments (n + 1) name line) s := by
  rw [Parser.arguments, Rule.arguments, Rule.arguments]
  refine (answers_lift _ s).bind fun _ m hm => ?_
  obtain ⟨ho, rfl⟩ := Parser.expect_ok_iff.mp hm
  refine (answers_lift _ s.advance).bind fun b m hc => ?_
  obtain ⟨_, rfl, rfl⟩ | ⟨_, rfl, rfl⟩ := Parser.eat_ok_iff.mp hc
  · exact answers_pure ..
  · have hneed : (Goal.arguments name line []).need s ≤ min fuel n + 1 := by omega
    exact ih.moreArguments name line s.advance (Goal.need_moreArguments_le ho hneed)

theorem moreArguments_succ (ih : ExprAnswers fuel n) (name : String) (line : Nat) (s : Stream)
    (hn : 2 * s.rest.length + 4 ≤ min (fuel + 1) (n + 1)) :
    Answers (Rule.moreArguments (fuel + 1) name line)
      (Parser.moreArguments (n + 1) name line) s := by
  rw [Parser.moreArguments, Rule.moreArguments, Rule.moreArguments]
  refine (ih.exprWithin 0 s (by omega)).bind fun e m he => ?_
  have hlt := length_lt_of_exprWithin (by omega) he
  refine (answers_lift _ m).bind fun b m' hc => ?_
  obtain ⟨_, rfl, rfl⟩ | ⟨_, rfl, rfl⟩ := Parser.eat_ok_iff.mp hc
  · have hle := m.length_advance_le
    refine answers_peek ?_
    split
    · exact answers_lift ..
    · refine (ih.moreArguments name line m.advance (by omega)).bind fun es m'' _ => ?_
      exact answers_pure ..
  · refine (answers_lift _ m').bind fun b m'' hc' => ?_
    obtain ⟨_, rfl, rfl⟩ | ⟨_, rfl, rfl⟩ := Parser.eat_ok_iff.mp hc'
    · exact answers_pure ..
    · exact answers_peek (answers_lift ..)

/-- No stream needs as little as that. -/
theorem of_min_eq_zero (h : min fuel n = 0) : ExprAnswers fuel n := by
  refine ⟨?_, ?_, ?_, ?_, ?_⟩
  · intro power s hn; omega
  · intro power lhs s hn; omega
  · intro s hn; omega
  · intro name line s hn
    obtain ⟨k, hk⟩ := Goal.exists_succ_of_need_le hn
    omega
  · intro name line s hn; omega

end ExprAnswers

theorem exprAnswers (fuel : Nat) : ∀ n, ExprAnswers fuel n := by
  induction fuel with
  | zero => exact fun n => .of_min_eq_zero (Nat.zero_min n)
  | succ fuel ih =>
    intro n
    cases n with
    | zero => exact .of_min_eq_zero (Nat.min_zero _)
    | succ n =>
      have ih := ih n
      exact ⟨ih.exprWithin_succ, ih.operators_succ, ih.operand_succ, ih.arguments_succ,
        ih.moreArguments_succ⟩

variable {fuel : Nat}

theorem answers_expr (h : s.fuel ≤ fuel) :
    Answers (Rule.expr (budget fuel)) Parser.expr s := by
  have hneed : 2 * s.rest.length + 3 ≤ s.fuel := Nat.le_refl _
  exact answers_get ((exprAnswers fuel s.fuel).exprWithin 0 s (by omega))

theorem answers_arguments (name : String) (line : Nat) (h : s.fuel ≤ fuel) :
    Answers (Rule.arguments fuel name line) (Parser.arguments s.fuel name line) s := by
  have hneed : (Goal.arguments name line []).need s ≤ s.fuel := by
    simp only [Goal.need, Stream.fuel]
    split <;> omega
  exact (exprAnswers fuel s.fuel).arguments name line s (by omega)

/-! ## Statements -/

-- What comes behind a token that is taken needs no more fuel than the token did.
theorem fuel_advance_le (h : s.fuel ≤ fuel) : s.advance.fuel ≤ fuel := by
  have hle := s.length_advance_le
  unfold Stream.fuel at h ⊢
  omega

theorem answers_commandStmt (c : Command) (h : s.fuel ≤ fuel) :
    Answers (Rule.commandStmt (budget fuel) c) (Parser.commandStmt c) s := by
  refine answers_next (answers_get ?_)
  refine (answers_arguments _ _ (fuel_advance_le h)).bind fun args m _ => ?_
  exact (answers_lift _ m).bind fun _ m' _ => answers_pure ..

theorem answers_typedExpr (line : Nat) (h : s.fuel ≤ fuel) :
    Answers (Rule.typedExpr (budget fuel) line) (Parser.typedExpr line) s := by
  refine (answers_expr h).bind fun e m _ => ?_
  cases e.shape? .value with
  | some ty => exact answers_pure ..
  | none => exact answers_lift ..

theorem answers_discardStmt (h : s.fuel ≤ fuel) :
    Answers (Rule.discardStmt (budget fuel)) Parser.discardStmt s :=
  answers_peek ((answers_typedExpr _ h).bind fun _ _ _ => answers_pure ..)

theorem answers_assignStmt (x : String) (h : s.fuel ≤ fuel) :
    Answers (Rule.assignStmt (budget fuel) x) (Parser.assignStmt x) s := by
  refine answers_next ((answers_lift ..).bind fun _ m hm => ?_)
  obtain ⟨_, rfl⟩ := Parser.expect_ok_iff.mp hm
  refine (answers_typedExpr _ (fuel_advance_le (fuel_advance_le h))).bind fun _ _ _ => ?_
  exact answers_pure ..

theorem answers_goToStmt (h : s.fuel ≤ fuel) :
    Answers (Rule.goToStmt (budget fuel)) Parser.goToStmt s := by
  refine answers_next ((answers_lift ..).bind fun _ m₁ h₁ => (answers_lift ..).bind fun l m₂ h₂ =>
    (answers_lift ..).bind fun _ m₃ h₃ => (answers_lift ..).bind fun _ m₄ h₄ => ?_)
  obtain ⟨_, rfl⟩ := Parser.expect_ok_iff.mp h₁
  obtain ⟨_, rfl⟩ := Parser.labelName_ok_iff.mp h₂
  obtain ⟨_, rfl⟩ := Parser.expect_ok_iff.mp h₃
  obtain ⟨_, rfl⟩ := Parser.expect_ok_iff.mp h₄
  refine (answers_expr ?_).bind fun e _ _ => (answers_lift ..).bind fun _ _ _ => ?_
  · exact fuel_advance_le (fuel_advance_le (fuel_advance_le (fuel_advance_le (fuel_advance_le h))))
  · split
    · exact answers_pure ..
    · exact answers_lift ..

theorem answers_stmt (h : s.fuel ≤ fuel) : Answers (Rule.stmt (budget fuel)) Parser.stmt s := by
  refine answers_get ?_
  dsimp only
  cases Command.ofKeyword? s.current.lexeme with
  | some c => exact answers_commandStmt c h
  | none =>
    cases Query.ofKeyword? s.current.lexeme with
    | some q => exact answers_discardStmt h
    | none =>
      cases s.current.kind with
      | name x =>
        cases s.following.kind with
        | arrow => exact answers_assignStmt x h
        | _ => exact answers_lift ..
      | goTo => exact answers_goToStmt h
      | _ => exact answers_lift ..

/-- As many statements as there are tokens may follow. -/
theorem answers_stmts (k : Nat) : ∀ n (s : Stream), s.fuel ≤ fuel → s.rest.length < min k n →
    Answers (Rule.stmts (budget fuel) k) (Parser.stmts n) s := by
  induction k with
  | zero => intro n s _ hn; omega
  | succ k ih =>
    intro n s hfuel hn
    obtain ⟨n, rfl⟩ : ∃ i, n = i + 1 := ⟨n - 1, by omega⟩
    rw [Parser.stmts, Rule.stmts, Rule.stmts]
    refine (answers_lift _ s).bind fun _ m hm => ?_
    obtain rfl : m = s.skipped := Parser.skipNewLines_ok_iff.mp hm
    have hle := s.length_skipped_le
    refine (answers_lift _ s.skipped).bind fun b m hb => ?_
    obtain ⟨rfl, rfl⟩ := Parser.atEnd_ok_iff.mp hb
    unfold Stream.fuel at hfuel ih
    split
    · exact answers_pure ..
    · refine (answers_stmt (by unfold Stream.fuel; omega)).bind fun st m hst => ?_
      have hlt := Parser.shrinks_of_stmt hst
      refine (answers_lift _ m).bind fun _ m' hend => ?_
      have hle' := Parser.length_le_of_endOfStmt hend
      exact (ih n m' (by omega) (by omega)).bind fun p m'' _ => answers_pure ..

theorem answers_program (h : s.fuel ≤ fuel) :
    Answers (Rule.program (budget fuel)) Parser.program s := by
  have hlt : s.rest.length < fuel := by
    unfold Stream.fuel at h
    omega
  exact answers_get (answers_stmts fuel _ s h (Nat.lt_min.mpr ⟨hlt, Nat.lt_succ_self _⟩))

end Search
end Easel
