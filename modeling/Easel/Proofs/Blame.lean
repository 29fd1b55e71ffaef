import Easel.Proofs.Grammar
import Easel.Proofs.Messages

/-!
# Easel.Proofs.Blame

What a parser blames when it fails. On scanned tokens a statement never goes past a newline, so
whatever a parser passes on, the line of a keyword or the line of the token it stopped at, is the
line of the statement; and what it quotes is the token it stopped at.

* `Stream.On`: a stream of scanned tokens that stands on a line.
* `Parser.Keeps`: a parser that starts on a line stays on it, and fails with a diagnostic about the
  token it stopped at. There is a rule for `bind`, one for every parser that the others are made of,
  and an induction on the fuel for the parsers of expressions (`Parser.ExprKeeps`).
* `Parser.keeps_stmt`, `Parser.places_stmts`: statements, and programs of them.
-/

namespace Easel

variable {α β : Type} {ts : List Token} {n : Nat} {s : Stream}

/-! ## Streams on a line -/

theorem Token.Spelled.oneLine_name {t : Token} {x : String} (h : t.Spelled)
    (hk : t.kind = .name x) : OneLine x := by
  have hv := h.newline_not_mem
  have hc := h.determined.carries
  rw [visible, if_neg (by simp [hk])] at hv
  rw [hk] at hc
  rwa [show t.lexeme.toList = x.toList from hc] at hv

/-- The stream has come to line `n` of the tokens `ts`. -/
structure Stream.On (ts : List Token) (n : Nat) (s : Stream) : Prop where
  spelled : s.Spelled
  lined : Token.Lined n (s.rest ++ [s.mark])
  mem : ∀ t ∈ s.rest ++ [s.mark], t ∈ ts

namespace Stream.On

theorem current_line (h : s.On ts n) : s.current.line = n := by
  obtain ⟨_ | ⟨t, rest⟩, lexeme, line⟩ := s
  · exact h.lined.1
  · exact h.lined.1

theorem current_mem (h : s.On ts n) : s.current ∈ ts := by
  obtain ⟨_ | ⟨t, rest⟩, lexeme, line⟩ := s
  · exact h.mem _ (by simp [current])
  · exact h.mem _ (by simp [current])

theorem current_spelled (h : s.On ts n) (hk : s.current.kind ≠ .endOfInput) :
    s.current.Spelled := by
  obtain ⟨rest, hs, _⟩ := exists_cons hk
  exact h.spelled.2 _ (by rw [hs]; simp)

/-- No token but the newline has a newline in it. -/
theorem oneLine_lexeme (h : s.On ts n) (hn : s.current.kind ≠ .newLine)
    (he : s.current.kind ≠ .endOfInput) : OneLine s.current.lexeme := by
  have hv := (h.current_spelled he).newline_not_mem
  rwa [Token.visible, if_neg hn] at hv

theorem oneLine_describe (h : s.On ts n) : OneLine s.current.describe := by
  unfold Token.describe
  split
  · decide
  · decide
  · rename_i hn he
    exact h.oneLine_lexeme hn he

theorem advance_lineAfter (h : s.On ts n) :
    s.advance.On ts (Token.lineAfter s.current.kind n) := by
  obtain ⟨_ | ⟨t, rest⟩, lexeme, line⟩ := s
  · exact h
  · refine ⟨h.spelled.advance, h.lined.2, fun u hu => h.mem u ?_⟩
    exact List.mem_cons_of_mem t hu

theorem advance (h : s.On ts n) (hk : s.current.kind ≠ .newLine) : s.advance.On ts n := by
  have ha := h.advance_lineAfter
  rwa [Token.lineAfter, if_neg hk] at ha

theorem advance_newLine (h : s.On ts n) (hk : s.current.kind = .newLine) :
    s.advance.On ts (n + 1) := by
  have ha := h.advance_lineAfter
  rwa [Token.lineAfter, if_pos hk] at ha

/-- Blank lines are lines. -/
theorem skipped (h : s.On ts n) : ∃ m, n ≤ m ∧ s.skipped.On ts m := by
  obtain ⟨rest, lexeme, line⟩ := s
  induction rest generalizing n with
  | nil => exact ⟨n, Nat.le_refl n, h⟩
  | cons t rest ih =>
    by_cases hk : t.kind = .newLine
    · obtain ⟨m, hm, hs⟩ := ih (h.advance_newLine hk)
      refine ⟨m, by omega, ?_⟩
      rwa [Stream.skipped, List.dropWhile_cons_of_pos (by simpa using hk)]
    · refine ⟨n, Nat.le_refl n, ?_⟩
      rwa [Stream.skipped, List.dropWhile_cons_of_neg (by simpa using hk)]

theorem oneLine_name (h : s.On ts n) {x : String} (hk : s.current.kind = .name x) : OneLine x :=
  (h.current_spelled (by simp [hk])).oneLine_name hk

theorem oneLine_text (h : s.On ts n) {x : String} (hk : s.current.kind = .text x) : OneLine x := by
  have hl := h.oneLine_lexeme (by simp [hk]) (by simp [hk])
  have hc := (h.current_spelled (by simp [hk])).determined.carries
  rw [hk] at hc
  rw [OneLine, show s.current.lexeme.toList = '"' :: (x.toList ++ ['"']) from hc] at hl
  exact fun hx => hl (by simp [hx])

theorem plain_leaf (h : s.On ts n) {e : Expr} (he : s.current.kind.leaf? = some e) : e.Plain := by
  cases hk : s.current.kind with
  | number n => rw [hk] at he; cases he; exact .number
  | bool b => rw [hk] at he; cases he; exact .bool
  | text x => rw [hk] at he; cases he; exact .text (h.oneLine_text hk)
  | name x => rw [hk] at he; cases he; exact .var (h.oneLine_name hk)
  | _ => rw [hk] at he; cases he

end Stream.On

/-! ## Parsers on a line -/

/-- The diagnostic is about the token that the stream stands at. -/
structure Diagnostic.Blames (d : Diagnostic) (s : Stream) : Prop where
  line : d.line = s.current.line
  found : ∀ found, d.fault.found? = some found → found = s.current.describe
  syntactic : d.fault.Syntactic
  plain : d.fault.Plain

/-- The statement starts on line `n`, and its words are one line each. -/
def Stmt.At (n : Nat) (st : Stmt) : Prop := st.line = n ∧ st.action.Plain

namespace Parser

/-- The parser has found something with `P`, or it has failed and blames the token it stopped at. In
both cases it is on line `n`. -/
def Stays (ts : List Token) (n : Nat) (P : α → Prop) :
    EStateM.Result Diagnostic Stream α → Prop
  | .ok a s => s.On ts n ∧ P a
  | .error d s => s.On ts n ∧ d.Blames s

/-- The parser stays on line `n` if it starts there. -/
def Keeps (ts : List Token) (n : Nat) (P : α → Prop) (p : Parser α) : Prop :=
  ∀ s : Stream, s.On ts n → Stays ts n P (p s)

variable {P : α → Prop} {Q : β → Prop}

theorem get_bind (k : Stream → Parser α) (s : Stream) : (get >>= k) s = k s s := rfl

theorem Stays.bind {p : Parser α} {k : α → Parser β} (hp : Stays ts n P (p s))
    (hk : ∀ a, P a → Keeps ts n Q (k a)) : Stays ts n Q ((p >>= k) s) := by
  cases h : p s with
  | ok a m =>
    rw [h] at hp
    rw [bind_of_ok h]
    exact hk a hp.2 m hp.1
  | error d m =>
    rw [h] at hp
    rw [bind_of_error h]
    exact hp

theorem Keeps.bind {p : Parser α} {k : α → Parser β} (hp : Keeps ts n P p)
    (hk : ∀ a, P a → Keeps ts n Q (k a)) : Keeps ts n Q (p >>= k) :=
  fun s hs => (hp s hs).bind hk

theorem keeps_pure {a : α} (h : P a) : Keeps ts n P (pure a) := fun _ hs => ⟨hs, h⟩

theorem keeps_fail {fault : Fault} (hf : fault.OfCheck) : Keeps ts n P (fail n fault) := by
  intro s hs
  refine ⟨hs, hs.current_line.symm, fun found h => ?_, hf.syntactic, hf.plain⟩
  rw [hf.found] at h
  cases h

/-- A fault that says what was found says it of the current token. -/
theorem stays_fail_found {fault : GrammarFault} (hs : s.On ts n)
    (hf : Fault.found? (.grammar fault) = some s.current.describe) (hp : fault.Plain) :
    Stays ts n P ((fail n (.grammar fault) : Parser α) s) := by
  refine ⟨hs, hs.current_line.symm, fun found h => ?_, trivial, hp⟩
  rw [hf] at h
  exact (Option.some.inj h).symm

theorem keeps_unexpected {expected : String} (he : OneLine expected) :
    Keeps ts n P (unexpected expected : Parser α) := by
  intro s hs
  show Stays ts n P ((fail s.current.line _ : Parser α) s)
  rw [hs.current_line]
  exact stays_fail_found hs rfl ⟨he, hs.oneLine_describe⟩

theorem stays_next_bind {k : Token → Parser β} (hs : s.On ts n)
    (hk : s.current.kind ≠ .newLine) (h : Keeps ts n Q (k s.current)) :
    Stays ts n Q ((next >>= k) s) :=
  h s.advance (hs.advance hk)

theorem keeps_eat {kind : TokenKind} (hk : kind ≠ .newLine) :
    Keeps ts n (fun _ => True) (eat kind) := by
  intro s hs
  rw [eat, peek_bind]
  split
  · rename_i he
    exact stays_next_bind hs (by rwa [he]) (keeps_pure trivial)
  · exact keeps_pure trivial s hs

theorem keeps_expect {kind : TokenKind} {expected : String} (hk : kind ≠ .newLine)
    (he : OneLine expected) : Keeps ts n (fun _ => True) (expect kind expected) := by
  refine (keeps_eat hk).bind fun b _ => ?_
  split
  · exact keeps_unexpected he
  · exact keeps_pure trivial

theorem keeps_require {x : Except Fault α} (h : ∀ f, x = .error f → f.OfCheck) :
    Keeps ts n (fun _ => True) (require n x) := by
  cases x with
  | ok a => exact keeps_pure trivial
  | error f => exact keeps_fail (h f rfl)

/-! ## Expressions -/

/-- The parsers of expressions under the given fuel. Those of arguments are told the line of the
keyword, which is the line they are on. -/
structure ExprKeeps (ts : List Token) (n fuel : Nat) : Prop where
  exprWithin : ∀ power, Keeps ts n Expr.Plain (exprWithin fuel power)
  operators : ∀ power {lhs : Expr}, lhs.Plain → Keeps ts n Expr.Plain (operators fuel power lhs)
  operand : Keeps ts n Expr.Plain (operand fuel)
  arguments : ∀ {name : String}, OneLine name →
    Keeps ts n (fun es => ∀ e ∈ es, e.Plain) (arguments fuel name n)
  moreArguments : ∀ {name : String}, OneLine name →
    Keeps ts n (fun es => ∀ e ∈ es, e.Plain) (moreArguments fuel name n)

namespace ExprKeeps

variable {fuel : Nat}

theorem operators_succ (ih : ExprKeeps ts n fuel) (power : Nat) {lhs : Expr} (hl : lhs.Plain) :
    Keeps ts n Expr.Plain (Parser.operators (fuel + 1) power lhs) := by
  intro s hs
  rw [Parser.operators, Rule.operators, liftM_eq, peek_bind]
  cases hk : s.current.kind.binaryOp? with
  | none => exact keeps_pure hl s hs
  | some op =>
    have hne : s.current.kind ≠ .newLine := by
      rw [TokenKind.binaryOp?_eq_some_iff.mp hk]
      simp
    dsimp only
    split
    · exact keeps_pure hl s hs
    · refine stays_next_bind hs hne ?_
      exact (ih.exprWithin _).bind fun rhs hr => ih.operators power (.binary hl hr)

theorem operand_succ (ih : ExprKeeps ts n fuel) :
    Keeps ts n Expr.Plain (Parser.operand (fuel + 1)) := by
  intro s hs
  cases hl : s.current.kind.leaf? with
  | some e =>
    rw [operand_of_leaf hl]
    refine ⟨hs.advance fun hk => ?_, hs.plain_leaf hl⟩
    rw [hk] at hl
    cases hl
  | none =>
    cases hu : s.current.kind.unaryOp? with
    | some op =>
      have hne : s.current.kind ≠ .newLine := fun hk => by rw [hk] at hu; cases hu
      rw [operand_of_unary hu]
      exact (ih.exprWithin _).bind (fun e he => keeps_pure (.unary he)) _ (hs.advance hne)
    | none =>
      by_cases hp : s.current.kind = .openParen
      · rw [operand_of_group hp]
        refine Keeps.bind (ih.exprWithin 0) (fun e he => ?_) _ (hs.advance (by simp [hp]))
        exact (keeps_expect (by simp) (by decide)).bind fun _ _ => keeps_pure (.group he)
      · have ho : s.current.kind.opensOperand = false := by
          simp [TokenKind.opensOperand, hl, hu, hp]
        rw [operand_of_word ho]
        cases hq : Query.ofKeyword? s.current.lexeme with
        | none => exact keeps_unexpected (by decide) s hs
        | some q =>
          have hk : s.current.kind = .query q := (hs.spelled.query_iff q).mp hq
          have hn := q.oneLine_keyword
          dsimp only
          rw [hs.current_line]
          refine Keeps.bind (ih.arguments hn) (fun es he => ?_) _ (hs.advance (by simp [hk]))
          have hr : Keeps ts n (fun _ => True)
              (require n (Param.checkAll q.keyword q.params es)) :=
            keeps_require fun f hf => Param.ofCheck_of_checkAll hn he hf
          exact hr.bind fun _ _ => keeps_pure (.call he)

theorem arguments_succ (ih : ExprKeeps ts n fuel) {name : String} (hn : OneLine name) :
    Keeps ts n (fun es => ∀ e ∈ es, e.Plain) (Parser.arguments (fuel + 1) name n) := by
  refine (keeps_expect (by simp) (by decide)).bind fun _ _ => ?_
  refine (keeps_eat (by simp)).bind fun b _ => ?_
  split
  · exact keeps_pure (by simp)
  · exact ih.moreArguments hn

theorem moreArguments_succ (ih : ExprKeeps ts n fuel) {name : String} (hn : OneLine name) :
    Keeps ts n (fun es => ∀ e ∈ es, e.Plain) (Parser.moreArguments (fuel + 1) name n) := by
  refine (ih.exprWithin 0).bind fun e he => (keeps_eat (by simp)).bind fun b _ => ?_
  split
  · intro s hs
    rw [liftM_eq, peek_bind]
    split
    · have hf : Fault.OfCheck (.grammar (.trailingComma name)) := ⟨trivial, rfl, hn⟩
      exact keeps_fail hf s hs
    · refine (ih.moreArguments hn).bind (fun es hes => ?_) s hs
      exact keeps_pure (List.forall_mem_cons.mpr ⟨he, hes⟩)
  · refine (keeps_eat (by simp)).bind fun b _ => ?_
    split
    · exact keeps_pure (by simpa using he)
    · intro s hs
      rw [liftM_eq, peek_bind]
      exact stays_fail_found hs rfl ⟨hn, hs.oneLine_describe⟩

end ExprKeeps

theorem exprKeeps (ts : List Token) (n fuel : Nat) : ExprKeeps ts n fuel := by
  induction fuel with
  | zero =>
    have hw : OneLine "an expression" := by decide
    refine ⟨fun _ => ?_, fun _ _ hl => ?_, ?_, fun _ => ?_, fun _ => ?_⟩
    · exact keeps_unexpected hw
    · exact keeps_pure hl
    · exact keeps_unexpected hw
    · exact keeps_unexpected hw
    · exact keeps_unexpected hw
  | succ fuel ih =>
    exact ⟨fun power => ih.operand.bind fun _ he => ih.operators power he, ih.operators_succ,
      ih.operand_succ, ih.arguments_succ, ih.moreArguments_succ⟩

theorem keeps_expr : Keeps ts n Expr.Plain expr :=
  fun s hs => (exprKeeps ts n s.fuel).exprWithin 0 s hs

/-! ## Statements -/

theorem keeps_typedExpr : Keeps ts n (fun r => r.1.Plain) (typedExpr n) := by
  refine keeps_expr.bind fun e he => ?_
  split
  · exact keeps_pure he
  · exact keeps_fail ⟨trivial, rfl, trivial⟩

theorem keeps_labelName : Keeps ts n OneLine labelName := by
  intro s hs
  rw [labelName, peek_bind]
  cases hk : s.current.kind with
  | name l => exact stays_next_bind hs (by simp [hk]) (keeps_pure (hs.oneLine_name hk))
  | _ => exact keeps_unexpected (by decide) s hs

theorem stays_commandStmt (hs : s.On ts n) {c : Command} (hk : s.current.kind = .command c) :
    Stays ts n (Stmt.At n) (commandStmt c s) := by
  have hn := c.oneLine_keyword
  refine stays_next_bind hs (by simp [hk]) fun s₁ hs₁ => ?_
  rw [hs.current_line]
  refine Keeps.bind ((exprKeeps ts n s₁.fuel).arguments hn) (fun es he => ?_) s₁ hs₁
  refine (keeps_require fun f hf => Param.ofCheck_of_checkAll hn he hf).bind fun _ _ => ?_
  exact keeps_pure ⟨rfl, .command he⟩

theorem keeps_discardStmt : Keeps ts n (Stmt.At n) discardStmt := by
  intro s hs
  rw [discardStmt, Rule.discardStmt, liftM_eq, peek_bind, hs.current_line]
  exact keeps_typedExpr.bind (fun r hr => keeps_pure ⟨rfl, .discard hr⟩) s hs

theorem stays_assignStmt (hs : s.On ts n) {x : String} (hk : s.current.kind = .name x) :
    Stays ts n (Stmt.At n) (assignStmt x s) := by
  refine stays_next_bind hs (by simp [hk]) ?_
  rw [hs.current_line]
  refine (keeps_expect (by simp) (by decide)).bind fun _ _ => ?_
  exact keeps_typedExpr.bind fun r hr => keeps_pure ⟨rfl, .assign hr⟩

theorem stays_labelStmt (hs : s.On ts n) {l : String} (hk : s.current.kind = .name l) :
    Stays ts n (Stmt.At n) (labelStmt l s) :=
  stays_next_bind hs (by simp [hk]) (keeps_pure ⟨hs.current_line, .label (hs.oneLine_name hk)⟩)

theorem stays_goToStmt (hs : s.On ts n) (hk : s.current.kind = .goTo) :
    Stays ts n (Stmt.At n) (goToStmt s) := by
  refine stays_next_bind hs (by simp [hk]) ?_
  rw [hs.current_line]
  refine (keeps_expect (by simp) (by decide)).bind fun _ _ => keeps_labelName.bind fun l hl => ?_
  refine (keeps_expect (by simp) (by decide)).bind fun _ _ => ?_
  refine (keeps_expect (by simp) (by decide)).bind fun _ _ => keeps_expr.bind fun e he => ?_
  refine (keeps_expect (by simp) (by decide)).bind fun _ _ => ?_
  split
  · exact keeps_pure ⟨rfl, .goTo hl he⟩
  · exact keeps_fail ⟨trivial, rfl, hl⟩

/-- A statement stays on its line. -/
theorem keeps_stmt : Keeps ts n (Stmt.At n) stmt := by
  intro s hs
  rw [stmt, Rule.stmt, liftM_eq, get_bind]
  have hunknown : Stays ts n (Stmt.At n) ((fail s.current.line
      (.grammar (.unknownStatement s.current.describe)) : Parser Stmt) s) := by
    rw [hs.current_line]
    exact stays_fail_found hs rfl hs.oneLine_describe
  cases hc : Command.ofKeyword? s.current.lexeme with
  | some c => exact stays_commandStmt hs ((hs.spelled.command_iff c).mp hc)
  | none =>
    cases hq : Query.ofKeyword? s.current.lexeme with
    | some q => exact keeps_discardStmt s hs
    | none =>
      cases hk : s.current.kind with
      | name x =>
        cases hf : s.following.kind with
        | arrow => exact stays_assignStmt hs hk
        | newLine => exact stays_labelStmt hs hk
        | endOfInput => exact stays_labelStmt hs hk
        | _ => exact hunknown
      | goTo => exact stays_goToStmt hs hk
      | _ => exact hunknown

/-! ## Programs -/

end Parser

/-- The statements stand on lines of `ts` from `n` on, each below the one before it, and their words
are one line each. -/
structure Program.Placed (ts : List Token) (n : Nat) (p : Program) : Prop where
  plain : ∀ st ∈ p, st.action.Plain
  line_mem : ∀ st ∈ p, ∃ t ∈ ts, t.line = st.line
  le_line : ∀ st ∈ p, n ≤ st.line
  increasing : p.Pairwise fun st st' => st.line < st'.line

namespace Program.Placed

theorem nil : Placed ts n [] :=
  ⟨by simp, by simp, by simp, .nil⟩

theorem mono {p : Program} {m : Nat} (h : Placed ts m p) (hn : n ≤ m) : Placed ts n p :=
  { h with le_line := fun st hst => Nat.le_trans hn (h.le_line st hst) }

theorem cons {st : Stmt} {p : Program} {t : Token} (hst : st.At n) (ht : t ∈ ts)
    (hl : t.line = n) (h : Placed ts (n + 1) p) : Placed ts n (st :: p) := by
  obtain ⟨hline, hplain⟩ := hst
  refine ⟨?_, ?_, ?_, ?_⟩
  · exact List.forall_mem_cons.mpr ⟨hplain, h.plain⟩
  · exact List.forall_mem_cons.mpr ⟨⟨t, ht, by rw [hl, hline]⟩, h.line_mem⟩
  · exact List.forall_mem_cons.mpr ⟨Nat.le_of_eq hline.symm, (h.mono (Nat.le_succ n)).le_line⟩
  · refine List.pairwise_cons.mpr ⟨fun st' hst' => ?_, h.increasing⟩
    rw [hline]
    exact h.le_line st' hst'

end Program.Placed

namespace Parser

/-- The parser has found a program that is placed, or it has failed and blames the token it stopped
at, on whatever line. -/
def Places (ts : List Token) (n : Nat) : EStateM.Result Diagnostic Stream Program → Prop
  | .ok p _ => p.Placed ts n
  | .error d s => ∃ m, s.On ts m ∧ d.Blames s

theorem Places.cons {st : Stmt} {t : Token} {p : Parser Program} (hst : st.At n) (ht : t ∈ ts)
    (hl : t.line = n) (h : Places ts (n + 1) (p s)) : Places ts n ((List.cons st <$> p) s) := by
  show Places ts n (EStateM.map (List.cons st) p s)
  unfold EStateM.map
  cases hp : p s with
  | error d s' =>
    rw [hp] at h
    exact h
  | ok rest s' =>
    rw [hp] at h
    exact Program.Placed.cons hst ht hl h

theorem Places.mono {m : Nat} {r : EStateM.Result Diagnostic Stream Program}
    (h : Places ts m r) (hn : n ≤ m) : Places ts n r := by
  cases r with
  | ok p s => exact Program.Placed.mono h hn
  | error d s => exact h

theorem endOfStmt_of_ne (he : s.rest ≠ []) (hk : s.current.kind ≠ .newLine) :
    endOfStmt s = unexpected "a newline after the statement" s := by
  have hne : s.rest.isEmpty = false := by simpa using he
  rw [endOfStmt, bind_of_ok (atEnd_ok_iff.mpr ⟨hne, rfl⟩)]
  exact bind_of_ok (eat_ok_iff.mpr (.inr ⟨hk, rfl, rfl⟩)) _

/-- A statement and what follows it. Its line is over at a newline, and nothing follows at the
end. -/
theorem places_stmt (fuel : Nat) (ih : ∀ {s : Stream}, s.On ts (n + 1) →
    Places ts (n + 1) (stmts fuel s)) (hs : s.On ts n) :
    Places ts n ((do
      let st ← stmt
      endOfStmt
      List.cons st <$> stmts fuel : Parser Program) s) := by
  have hstmt := keeps_stmt s hs
  cases h : stmt s with
  | error d s₁ =>
    rw [h] at hstmt
    rw [bind_of_error h]
    exact ⟨n, hstmt⟩
  | ok st s₁ =>
    rw [h] at hstmt
    obtain ⟨hs₁, hst⟩ := hstmt
    rw [bind_of_ok h]
    by_cases he : s₁.rest = []
    · rw [bind_of_ok (endOfStmt_of_end he)]
      refine Places.cons hst hs.current_mem hs.current_line ?_
      rw [stmts_of_end fuel he]
      exact .nil
    · by_cases hk : s₁.current.kind = .newLine
      · rw [bind_of_ok (endOfStmt_of_newLine hk)]
        exact Places.cons hst hs.current_mem hs.current_line (ih (hs₁.advance_newLine hk))
      · have hx : Stays ts n (fun _ => True) (endOfStmt s₁) := by
          rw [endOfStmt_of_ne he hk]
          exact keeps_unexpected (by decide) s₁ hs₁
        have hfail : endOfStmt s₁ = .error _ s₁ := endOfStmt_of_ne he hk
        rw [hfail] at hx
        rw [bind_of_error hfail]
        exact ⟨n, hx⟩

/-- Statements stand on lines one below the other, and a failure is blamed on the token that the
parser stopped at. -/
theorem places_stmts (fuel : Nat) :
    ∀ {n : Nat} {s : Stream}, s.On ts n → Places ts n (stmts fuel s) := by
  induction fuel with
  | zero => intro n s _; exact .nil
  | succ fuel ih =>
    intro n s hs
    obtain ⟨m, hm, hskip⟩ := hs.skipped
    rw [stmts_succ]
    by_cases he : s.skipped.rest = []
    · rw [stmtsHere_of_end fuel he]
      exact .nil
    · rw [stmtsHere_of_ne_nil fuel he]
      exact (places_stmt fuel ih hskip).mono hm

end Parser

theorem Stream.on_of_scan {text : String} (h : Token.scan text = .ok ts) :
    (Stream.ofTokens ts).On ts 1 := by
  obtain ⟨body, line, hts, hof, hb⟩ := (Token.scanned_of_scan h).ofTokens_eq
  have hl : Token.Lined 1 ts := Token.lined_of_scanFrom h
  rw [hof]
  refine ⟨⟨rfl, hb⟩, ?_, ?_⟩
  · rwa [hts] at hl
  · rw [hts]
    exact fun t ht => ht

/-- What comes of the tokens of a text. -/
theorem Parser.places_program {text : String} (h : Token.scan text = .ok ts) :
    Places ts 1 (program (Stream.ofTokens ts)) :=
  places_stmts _ (Stream.on_of_scan h)

end Easel
