import Easel.Proofs.Halting

/-!
# Easel.Proofs.Progress

A parser on its way through the tokens. On any list of tokens it may be asked for phrases in any
order, also after it has failed: every time it comes to an end, it never goes back or past the first
end mark, and what it finds has taken a token (`Phrase.progresses`).

* `Stream.LeadsTo`: one stream is reached from another by taking tokens.
* `Parser.Onward`: wherever a parser stops, whether it found something or failed, it was led there.
  There is a rule for `bind`, one for every parser that the others are made of, and an induction on
  the fuel for the parsers of expressions (`Parser.ExprOnward`).
* `Stream.StandsAt`: the place of a stream in the list of tokens.
* `Phrase`: what a parser can be asked for; `Stream.after` is where it comes to with one phrase
  after the other.
-/

namespace Easel

variable {α β : Type} {s s' : Stream}

/-! ## Further on -/

namespace Stream

/-- The stream `s'` is what is left of `s` when tokens have been taken. -/
def LeadsTo (s s' : Stream) : Prop := ∃ ts, s = s'.prepend ts

theorem LeadsTo.refl (s : Stream) : s.LeadsTo s := ⟨[], rfl⟩

theorem LeadsTo.trans {m : Stream} (h : s.LeadsTo m) (h' : m.LeadsTo s') : s.LeadsTo s' := by
  obtain ⟨ts, rfl⟩ := h
  obtain ⟨us, rfl⟩ := h'
  exact ⟨ts ++ us, (prepend_append ..).symm⟩

theorem leadsTo_advance (s : Stream) : s.LeadsTo s.advance := by
  refine ⟨s.rest.take 1, ?_⟩
  rw [prepend, advance, ← List.drop_one, List.take_append_drop]

theorem leadsTo_skipped (s : Stream) : s.LeadsTo s.skipped := by
  refine ⟨s.rest.takeWhile fun t => t.kind = .newLine, ?_⟩
  rw [prepend, skipped, List.takeWhile_append_dropWhile]

end Stream

namespace Parser

/-- The parser stops where it started or further on, both when it finds something and when it
fails. -/
structure Onward (p : Parser α) : Prop where
  leads : ∀ s : Stream, s.LeadsTo (p.outcome s).2

theorem Onward.bind {p : Parser α} {k : α → Parser β} (hp : Onward p) (hk : ∀ a, Onward (k a)) :
    Onward (p >>= k) := by
  constructor
  intro s
  have hs := hp.leads s
  cases h : p s with
  | ok a m =>
    rw [outcome, h] at hs
    rw [outcome_congr (bind_of_ok h k)]
    exact hs.trans ((hk a).leads m)
  | error d m =>
    rw [outcome, h] at hs
    rw [outcome, bind_of_error h]
    exact hs

-- A parser that takes the current token and then goes on like another one.
theorem leadsTo_of_advance {p q : Parser α} (h : p s = q s.advance) (hq : Onward q) :
    s.LeadsTo (p.outcome s).2 := by
  rw [outcome_congr h]
  exact s.leadsTo_advance.trans (hq.leads s.advance)

theorem onward_pure (a : α) : Onward (pure a) := ⟨Stream.LeadsTo.refl⟩

theorem onward_get : Onward get := ⟨Stream.LeadsTo.refl⟩

theorem onward_peek : Onward peek := ⟨Stream.LeadsTo.refl⟩

theorem onward_atEnd : Onward atEnd := ⟨Stream.LeadsTo.refl⟩

theorem onward_next : Onward next := ⟨Stream.leadsTo_advance⟩

theorem onward_skipNewLines : Onward skipNewLines := ⟨Stream.leadsTo_skipped⟩

theorem onward_fail (line : Nat) (fault : Fault) : Onward (fail line fault : Parser α) :=
  ⟨Stream.LeadsTo.refl⟩

theorem onward_unexpected (expected : String) : Onward (unexpected expected : Parser α) :=
  ⟨Stream.LeadsTo.refl⟩

theorem onward_eat (kind : TokenKind) : Onward (eat kind) := by
  refine onward_peek.bind fun t => ?_
  split
  · exact onward_next.bind fun _ => onward_pure _
  · exact onward_pure _

theorem onward_expect (kind : TokenKind) (expected : String) : Onward (expect kind expected) := by
  refine (onward_eat kind).bind fun b => ?_
  split
  · exact onward_unexpected _
  · exact onward_pure _

theorem onward_require (line : Nat) (x : Except Fault α) : Onward (require line x) := by
  cases x with
  | ok a => exact onward_pure a
  | error f => exact onward_fail line f

/-! ## Expressions -/

/-- The parsers of expressions under the given fuel. -/
structure ExprOnward (fuel : Nat) : Prop where
  exprWithin : ∀ power, Onward (exprWithin fuel power)
  operators : ∀ power lhs, Onward (operators fuel power lhs)
  operand : Onward (operand fuel)
  arguments : ∀ name line, Onward (arguments fuel name line)
  moreArguments : ∀ name line, Onward (moreArguments fuel name line)

namespace ExprOnward

variable {fuel : Nat}

theorem operators_succ (ih : ExprOnward fuel) (power : Nat) (lhs : Expr) :
    Onward (Parser.operators (fuel + 1) power lhs) := by
  refine onward_peek.bind fun t => ?_
  split
  · exact onward_pure _
  · split
    · exact onward_pure _
    · exact onward_next.bind fun _ => (ih.exprWithin _).bind fun _ => ih.operators ..

theorem operand_succ (ih : ExprOnward fuel) : Onward (Parser.operand (fuel + 1)) := by
  constructor
  intro s
  cases hl : s.current.kind.leaf? with
  | some e => exact leadsTo_of_advance (operand_of_leaf hl) (onward_pure e)
  | none =>
    cases hu : s.current.kind.unaryOp? with
    | some op =>
      refine leadsTo_of_advance (operand_of_unary hu) ?_
      exact (ih.exprWithin _).bind fun _ => onward_pure _
    | none =>
      by_cases hp : s.current.kind = .openParen
      · refine leadsTo_of_advance (operand_of_group hp) ?_
        exact (ih.exprWithin 0).bind fun _ => (onward_expect ..).bind fun _ => onward_pure _
      · have ho : s.current.kind.opensOperand = false := by
          simp [TokenKind.opensOperand, hl, hu, hp]
        have hword : Parser.operand (fuel + 1) s = _ := operand_of_word ho
        cases hq : Query.ofKeyword? s.current.lexeme with
        | none =>
          simp only [hq] at hword
          rw [outcome_congr hword]
          exact (onward_unexpected _).leads s
        | some q =>
          simp only [hq] at hword
          refine leadsTo_of_advance hword ?_
          exact (ih.arguments ..).bind fun _ => (onward_require ..).bind fun _ => onward_pure _

theorem arguments_succ (ih : ExprOnward fuel) (name : String) (line : Nat) :
    Onward (Parser.arguments (fuel + 1) name line) := by
  refine (onward_expect ..).bind fun _ => (onward_eat _).bind fun b => ?_
  split
  · exact onward_pure _
  · exact ih.moreArguments ..

theorem moreArguments_succ (ih : ExprOnward fuel) (name : String) (line : Nat) :
    Onward (Parser.moreArguments (fuel + 1) name line) := by
  refine (ih.exprWithin 0).bind fun e => (onward_eat _).bind fun b => ?_
  split
  · refine onward_peek.bind fun t => ?_
    split
    · exact onward_fail ..
    · exact (ih.moreArguments ..).bind fun _ => onward_pure _
  · refine (onward_eat _).bind fun b => ?_
    split
    · exact onward_pure _
    · exact onward_peek.bind fun _ => onward_fail ..

end ExprOnward

theorem exprOnward (fuel : Nat) : ExprOnward fuel := by
  induction fuel with
  | zero =>
    refine ⟨fun _ => ?_, fun _ _ => ?_, ?_, fun _ _ => ?_, fun _ _ => ?_⟩
    · exact onward_unexpected _
    · exact onward_pure _
    · exact onward_unexpected _
    · exact onward_unexpected _
    · exact onward_unexpected _
  | succ fuel ih =>
    exact ⟨fun _ => ih.operand.bind fun _ => ih.operators .., ih.operators_succ, ih.operand_succ,
      ih.arguments_succ, ih.moreArguments_succ⟩

theorem onward_expr : Onward expr := onward_get.bind fun s => (exprOnward s.fuel).exprWithin 0

/-! ## Statements -/

theorem onward_typedExpr (line : Nat) : Onward (typedExpr line) := by
  refine onward_expr.bind fun e => ?_
  split
  · exact onward_pure _
  · exact onward_fail ..

theorem onward_labelName : Onward labelName := by
  refine onward_peek.bind fun t => ?_
  split
  · exact onward_next.bind fun _ => onward_pure _
  · exact onward_unexpected _

theorem onward_commandStmt (c : Command) : Onward (commandStmt c) :=
  onward_next.bind fun _ => onward_get.bind fun s =>
    ((exprOnward s.fuel).arguments ..).bind fun _ => (onward_require ..).bind fun _ => onward_pure _

theorem onward_discardStmt : Onward discardStmt :=
  onward_peek.bind fun _ => (onward_typedExpr _).bind fun _ => onward_pure _

theorem onward_assignStmt (x : String) : Onward (assignStmt x) :=
  onward_next.bind fun _ => (onward_expect ..).bind fun _ => (onward_typedExpr _).bind fun _ =>
    onward_pure _

theorem onward_labelStmt (l : String) : Onward (labelStmt l) :=
  onward_next.bind fun _ => onward_pure _

theorem onward_goToStmt : Onward goToStmt := by
  refine onward_next.bind fun t => (onward_expect ..).bind fun _ => onward_labelName.bind fun l =>
    (onward_expect ..).bind fun _ => (onward_expect ..).bind fun _ => onward_expr.bind fun e =>
    (onward_expect ..).bind fun _ => ?_
  split
  · exact onward_pure _
  · exact onward_fail ..

theorem onward_stmt : Onward stmt := by
  refine onward_get.bind fun s => ?_
  dsimp only
  split
  · exact onward_commandStmt _
  · exact onward_discardStmt
  · split
    · exact onward_assignStmt _
    · exact onward_labelStmt _
    · exact onward_labelStmt _
    · exact onward_goToStmt
    · exact onward_fail ..

theorem onward_endOfStmt : Onward endOfStmt := by
  refine onward_atEnd.bind fun b => ?_
  split
  · exact onward_pure _
  · exact onward_expect ..

theorem onward_stmts (fuel : Nat) : Onward (stmts fuel) := by
  induction fuel with
  | zero => exact onward_pure _
  | succ fuel ih =>
    refine onward_skipNewLines.bind fun _ => onward_atEnd.bind fun b => ?_
    split
    · exact onward_pure _
    · exact onward_stmt.bind fun _ => onward_endOfStmt.bind fun _ => ih.bind fun _ => onward_pure _

theorem onward_program : Onward program := onward_get.bind fun _ => onward_stmts _

/-- Nothing is left behind a program. -/
theorem rest_eq_nil_of_stmts {fuel : Nat} :
    ∀ {s s' : Stream} {p : Program}, s.rest.length < fuel → stmts fuel s = .ok p s' →
      s'.rest = [] := by
  induction fuel with
  | zero => intro s s' p hlt; omega
  | succ fuel ih =>
    intro s s' p hlt h
    obtain ⟨m, rfl, ⟨he, _, rfl⟩ | ⟨_, st, p', m₁, m₂, hst, hend, hp, _⟩⟩ := stmts_ok_iff.mp h
    · exact he
    · have hle := s.length_skipped_le
      have hshrink : m₁.rest.length < s.skipped.rest.length := shrinks_of_stmt hst
      have hle' := length_le_of_endOfStmt (u := ()) (endOfStmt_ok_iff.mpr hend)
      exact ih (by omega) hp

theorem program_of_end (h : s.rest = []) : program s = .ok [] s := stmts_of_end _ h

end Parser

/-! ## Places -/

namespace Stream

variable {ts : List Token} {i : Nat}

/-- The place of the first end mark, or of the one that is put behind the tokens if they have
none. -/
def endPlace (ts : List Token) : Nat := ts.findIdx fun t => t.kind = .endOfInput

theorem rest_ofTokens (ts : List Token) :
    (ofTokens ts).rest = ts.takeWhile fun t => t.kind ≠ .endOfInput := by
  unfold ofTokens
  dsimp only
  split <;> rfl

theorem length_ofTokens (ts : List Token) : (ofTokens ts).rest.length = endPlace ts := by
  have hle : endPlace ts ≤ ts.length := List.findIdx_le_length
  rw [rest_ofTokens, List.takeWhile_eq_take_findIdx_not, List.length_take]
  simpa [endPlace] using Nat.min_eq_left hle

theorem length_seek (ts : List Token) (i : Nat) : (seek ts i).rest.length = endPlace ts - i := by
  rw [seek, List.length_drop, length_ofTokens]

theorem mark_ofTokens {m : Token} (h : ts[endPlace ts]? = some m) : (ofTokens ts).mark = m := by
  have hfind : ts.find? (fun t => t.kind = .endOfInput) = some m := by
    rwa [List.find?_eq_getElem?_findIdx]
  have hkind : m.kind = .endOfInput := by simpa using List.find?_some hfind
  simp only [ofTokens, hfind, mark]
  rw [← hkind]

/-- `s` stands at place `i` of the tokens `ts`. -/
structure StandsAt (ts : List Token) (i : Nat) (s : Stream) : Prop where
  eq : s = seek ts i
  le : i ≤ endPlace ts
  current : ∀ t, ts[i]? = some t → s.current = t
  marked : s.current.kind = .endOfInput ↔ i = endPlace ts

theorem standsAt_seek (hi : i ≤ endPlace ts) : StandsAt ts i (seek ts i) := by
  rcases Nat.lt_or_eq_of_le hi with hlt | rfl
  · have hlen : i < (ofTokens ts).rest.length := by rwa [length_ofTokens]
    have hcur : (seek ts i).current = (ofTokens ts).rest[i] := by
      rw [current, seek, List.drop_eq_getElem_cons hlen]
      rfl
    refine ⟨rfl, hi, fun t ht => ?_, ?_⟩
    · have hpre : (ofTokens ts).rest <+: ts := by
        rw [rest_ofTokens]
        exact List.takeWhile_prefix _
      rw [List.prefix_iff_getElem?.mp hpre i hlen] at ht
      rw [hcur, Option.some.inj ht]
    · have hmem : (ofTokens ts).rest[i] ∈ ts.takeWhile fun t => t.kind ≠ .endOfInput := by
        rw [← rest_ofTokens]
        exact List.getElem_mem hlen
      have hne := List.all_eq_true.mp List.all_takeWhile _ hmem
      rw [hcur]
      constructor
      · intro hk
        simp [hk] at hne
      · intro he
        omega
  · have hcur : (seek ts (endPlace ts)).current = (ofTokens ts).mark := by
      rw [current, seek, ← length_ofTokens, List.drop_length]
      rfl
    refine ⟨rfl, hi, fun t ht => ?_, iff_of_true ?_ rfl⟩
    · rw [hcur, mark_ofTokens ht]
    · rw [hcur]
      rfl

theorem standsAt_ofTokens : (ofTokens ts).StandsAt ts 0 := standsAt_seek (Nat.zero_le _)

theorem StandsAt.of_leadsTo (h : StandsAt ts i s) (hl : s.LeadsTo s') :
    ∃ j, i ≤ j ∧ StandsAt ts j s' := by
  obtain ⟨us, hus⟩ := hl
  obtain ⟨rest, lexeme, line⟩ := s'
  have hle := h.le
  have hlen := length_seek ts i
  rw [h.eq] at hus
  simp only [seek, prepend, mk.injEq] at hus
  obtain ⟨hrest, rfl, rfl⟩ := hus
  rw [seek, hrest, List.length_append] at hlen
  refine ⟨i + us.length, Nat.le_add_right .., ?_⟩
  have hseek :
      seek ts (i + us.length) = ⟨rest, (ofTokens ts).endLexeme, (ofTokens ts).endLine⟩ := by
    rw [seek, ← List.drop_drop, hrest, List.drop_left]
  rw [← hseek]
  exact standsAt_seek (by omega)

theorem StandsAt.length_rest (h : StandsAt ts i s) : s.rest.length + i = endPlace ts := by
  have hle := h.le
  rw [h.eq, length_seek]
  omega

end Stream

/-! ## Phrases -/

/-- What a parser can be asked for, wherever it stands. -/
inductive Phrase where
  | expr
  | stmt
  | program
deriving DecidableEq, Repr

/-- A phrase that was found. -/
inductive Found where
  | expr (e : Expr)
  | stmt (st : Stmt)
  | program (p : Program)

namespace Phrase

/-- The rule for a phrase, in any monad in which the rules can be followed. -/
def rule {m : Type → Type} [Monad m] [MonadLiftT Parser m] [Fueled m] (b : Budget) :
    Phrase → m Found
  | .expr => do return .expr (← Rule.expr b)
  | .stmt => do return .stmt (← Rule.stmt b)
  | .program => do return .program (← Rule.program b)

def parser (ph : Phrase) : Parser Found := ph.rule Parser.budget

/-- The parser as a search, which has no answer when the fuel is used up. -/
def search (fuel : Nat) (ph : Phrase) : Search Found := ph.rule (Search.budget fuel)

theorem answers (ph : Phrase) {fuel : Nat} (h : s.fuel ≤ fuel) :
    Search.Answers (ph.search fuel) ph.parser s := by
  cases ph with
  | expr => exact (Search.answers_expr h).bind fun _ _ _ => Search.answers_pure ..
  | stmt => exact (Search.answers_stmt h).bind fun _ _ _ => Search.answers_pure ..
  | program => exact (Search.answers_program h).bind fun _ _ _ => Search.answers_pure ..

theorem onward (ph : Phrase) : ph.parser.Onward := by
  cases ph with
  | expr => exact Parser.onward_expr.bind fun _ => Parser.onward_pure _
  | stmt => exact Parser.onward_stmt.bind fun _ => Parser.onward_pure _
  | program => exact Parser.onward_program.bind fun _ => Parser.onward_pure _

theorem shrinks {ph : Phrase} {found : Found} (hr : ph ≠ .program)
    (h : ph.parser s = .ok found s') : s'.rest.length < s.rest.length := by
  cases ph with
  | expr =>
    obtain ⟨e, m, he, hm⟩ := Parser.bind_ok_iff.mp h
    obtain ⟨_, rfl⟩ := Parser.pure_ok_iff.mp hm
    exact (Parser.expr_ok_iff.mp he).shrinks
  | stmt =>
    obtain ⟨st, m, hst, hm⟩ := Parser.bind_ok_iff.mp h
    obtain ⟨_, rfl⟩ := Parser.pure_ok_iff.mp hm
    exact Parser.shrinks_of_stmt hst
  | program => exact absurd rfl hr

theorem rest_eq_nil {found : Found} (h : program.parser s = .ok found s') : s'.rest = [] := by
  obtain ⟨p, m, hp, hm⟩ := Parser.bind_ok_iff.mp h
  obtain ⟨_, rfl⟩ := Parser.pure_ok_iff.mp hm
  exact Parser.rest_eq_nil_of_stmts (Nat.lt_succ_self _) hp

end Phrase

/-- The place that a parser comes to when it is asked for one phrase after the other. A failure is
no reason to stop. -/
def Stream.after (s : Stream) (phs : List Phrase) : Stream :=
  phs.foldl (fun m ph => (ph.parser.outcome m).2) s

theorem Stream.leadsTo_after (s : Stream) (phs : List Phrase) : s.LeadsTo (s.after phs) := by
  induction phs generalizing s with
  | nil => exact .refl s
  | cons ph phs ih => exact (ph.onward.leads s).trans (ih _)

namespace Phrase

variable {ts : List Token} {i j : Nat}

theorem lt_of_ok {ph : Phrase} {found : Found} (hr : ph ≠ .program) (hi : s.StandsAt ts i)
    (hj : s'.StandsAt ts j) (h : ph.parser s = .ok found s') : i < j := by
  have hlt := shrinks hr h
  have hi := hi.length_rest
  have hj := hj.length_rest
  omega

/-- Behind a program there is only the end mark, whatever is asked for there. -/
theorem program_after {found : Found} (h : program.parser s = .ok found s') (later : List Phrase) :
    program.parser.outcome (s'.after later) = (.ok (.program []), s') := by
  have hnil := rest_eq_nil h
  have hafter : s'.after later = s' := by
    obtain ⟨us, hus⟩ := s'.leadsTo_after later
    generalize s'.after later = m at hus
    subst hus
    obtain ⟨rfl, _⟩ := List.append_eq_nil_iff.mp hnil
    rfl
  have hprogram : program.parser s' = .ok (.program []) s' := by
    rw [parser, rule, Parser.bind_of_ok (Parser.program_of_end hnil)]
    rfl
  rw [hafter, Parser.outcome, hprogram]

/-- Whatever a parser was asked for before, it comes to an end with the next phrase, after as many
calls as the tokens allow, and stands at the same place then or further on, but not past the end
mark. With an expression or a statement it has taken a token. A program is found only at the end
mark, and every program that it is asked for later is empty. -/
theorem progresses (ts : List Token) (before : List Phrase) (ph : Phrase) :
    ∃ i j answer, i ≤ j ∧
      ((Stream.ofTokens ts).after before).StandsAt ts i ∧
      ((Stream.ofTokens ts).after (before ++ [ph])).StandsAt ts j ∧
      ph.parser.outcome (.seek ts i) = (answer, .seek ts j) ∧
      (∀ fuel, 2 * Stream.endPlace ts + 3 < fuel →
        ph.search fuel (.seek ts i) = some (answer, .seek ts j)) ∧
      (∀ found, answer = .ok found → ph ≠ .program → i < j) ∧
      (∀ found, answer = .ok found → ph = .program → j = Stream.endPlace ts ∧
        ∀ later, program.parser.outcome ((Stream.ofTokens ts).after (before ++ ph :: later)) =
          (.ok (.program []), .seek ts j)) := by
  let s := (Stream.ofTokens ts).after before
  obtain ⟨i, _, hi⟩ : ∃ i, 0 ≤ i ∧ s.StandsAt ts i :=
    Stream.standsAt_ofTokens.of_leadsTo (Stream.leadsTo_after ..)
  obtain ⟨j, hij, hj⟩ := hi.of_leadsTo (ph.onward.leads s)
  have hafter : ∀ later, (Stream.ofTokens ts).after (before ++ ph :: later) =
      (ph.parser.outcome s).2.after later := fun later => List.foldl_append ..
  have hout : ph.parser.outcome s = ((ph.parser.outcome s).1, .seek ts j) := by rw [← hj.eq]
  have hok : ∀ found, (ph.parser.outcome s).1 = .ok found →
      ph.parser s = .ok found (.seek ts j) := by
    intro found hfound
    rw [hfound] at hout
    exact Parser.outcome_eq_ok_iff.mp hout
  refine ⟨i, j, (ph.parser.outcome s).1, hij, hi, ?_, ?_, fun fuel hfuel => ?_,
    fun found hf hr => ?_, fun found hf hr => ⟨?_, fun later => ?_⟩⟩
  · rw [hafter]
    exact hj
  · rw [← hi.eq]
    exact hout
  · have hlen := hi.length_rest
    have hs : s.fuel ≤ fuel := by
      unfold Stream.fuel
      omega
    rw [← hi.eq]
    exact (ph.answers hs).trans (congrArg some hout)
  · exact lt_of_ok hr hi (Stream.standsAt_seek hj.le) (hok found hf)
  · subst hr
    have hlen := hj.length_rest
    rw [hj.eq, rest_eq_nil (hok found hf)] at hlen
    simpa using hlen
  · subst hr
    rw [hafter, hj.eq]
    exact program_after (hok found hf) later

-- An end mark that is spelled like a keyword is looked at and not taken.
example :
    let ts : List Token := [⟨.endOfInput, "Fill", 1⟩, ⟨.openParen, "(", 1⟩, ⟨.closeParen, ")", 1⟩]
    (Stream.ofTokens ts).after [.stmt, .expr, .stmt] = .seek ts 0 := rfl

end Phrase

end Easel
