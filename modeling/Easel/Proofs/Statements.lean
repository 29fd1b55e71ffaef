import Easel.Program.Parse
import Easel.Proofs.Fuel
import Easel.Proofs.Precedence

/-!
# Easel.Proofs.Statements

What the statement parsers find. Each of them is taken apart once, into the expressions it reads
and the checks these pass (`commandStmt_ok_iff`, `typedExpr_ok_iff`, `goToStmt_ok_iff`, ...).

`Action.Vetted` collects the checks: it holds of every statement of a parsed program, whatever the
tokens were (`Program.vetted_of_parse`).
-/

namespace Easel

namespace Parser

variable {s s' : Stream} {st : Stmt}

theorem arguments_fuel_ok_iff {name : String} {line : Nat} {es : List Expr} :
    arguments s.fuel name line s = .ok es s' ↔ Reads (.arguments name line es) s s' := by
  refine runs_iff_reads (g := .arguments name line es) ?_
  simp only [Goal.need, Stream.fuel]
  split <;> omega

theorem commandStmt_ok_iff {c : Command} :
    commandStmt c s = .ok st s' ↔
      ∃ args, Reads (.arguments c.keyword s.current.line args) s.advance s' ∧
        Param.checkAll c.keyword c.params args = .ok () ∧
        st = ⟨s.current.line, .command c args⟩ := by
  simp only [commandStmt, Rule.commandStmt, liftM_eq, bind_ok_iff, next_ok_iff, get_ok_iff,
    require_ok_iff, pure_ok_iff]
  constructor
  · rintro ⟨_, _, ⟨rfl, rfl⟩, _, _, ⟨rfl, rfl⟩, args, m, ha, _, _, ⟨hc, rfl⟩, rfl, rfl⟩
    exact ⟨args, arguments_fuel_ok_iff.mp ha, hc, rfl⟩
  · rintro ⟨args, ha, hc, rfl⟩
    exact ⟨_, _, ⟨rfl, rfl⟩, _, _, ⟨rfl, rfl⟩, args, s', arguments_fuel_ok_iff.mpr ha, (), s',
      ⟨hc, rfl⟩, rfl, rfl⟩

theorem typedExpr_ok_iff {line : Nat} {e : Expr} {ty : Ty} :
    typedExpr line s = .ok (e, ty) s' ↔ Reads (.expr 0 e) s s' ∧ e.shape? .value = some ty := by
  simp only [typedExpr, Rule.typedExpr, liftM_eq, bind_ok_iff, expr_ok_iff]
  constructor
  · rintro ⟨e', m, he, h⟩
    cases hty : e'.shape? .value with
    | some ty' =>
      rw [hty] at h
      cases h
      exact ⟨he, hty⟩
    | none =>
      rw [hty] at h
      exact (fail_ok_iff.mp h).elim
  · rintro ⟨he, hty⟩
    refine ⟨e, s', he, ?_⟩
    rw [hty]
    rfl

theorem discardStmt_ok_iff :
    discardStmt s = .ok st s' ↔
      ∃ e ty, Reads (.expr 0 e) s s' ∧ e.shape? .value = some ty ∧
        st = ⟨s.current.line, .discard e⟩ := by
  simp only [discardStmt, Rule.discardStmt, liftM_eq, bind_ok_iff, peek_ok_iff, pure_ok_iff]
  constructor
  · rintro ⟨_, _, ⟨rfl, rfl⟩, ⟨e, ty⟩, m, h, rfl, rfl⟩
    obtain ⟨he, hty⟩ := typedExpr_ok_iff.mp h
    exact ⟨e, ty, he, hty, rfl⟩
  · rintro ⟨e, ty, he, hty, rfl⟩
    exact ⟨_, _, ⟨rfl, rfl⟩, (e, ty), s', typedExpr_ok_iff.mpr ⟨he, hty⟩, rfl, rfl⟩

theorem assignStmt_ok_iff {x : String} :
    assignStmt x s = .ok st s' ↔
      s.advance.current.kind = .arrow ∧
        ∃ e ty, Reads (.expr 0 e) s.advance.advance s' ∧ e.shape? .value = some ty ∧
          st = ⟨s.current.line, .assign x ty e⟩ := by
  simp only [assignStmt, Rule.assignStmt, liftM_eq, bind_ok_iff, next_ok_iff, expect_ok_iff,
    pure_ok_iff]
  constructor
  · rintro ⟨_, _, ⟨rfl, rfl⟩, _, _, ⟨hk, rfl⟩, ⟨e, ty⟩, m, h, rfl, rfl⟩
    obtain ⟨he, hty⟩ := typedExpr_ok_iff.mp h
    exact ⟨hk, e, ty, he, hty, rfl⟩
  · rintro ⟨hk, e, ty, he, hty, rfl⟩
    exact ⟨_, _, ⟨rfl, rfl⟩, (), _, ⟨hk, rfl⟩, (e, ty), s', typedExpr_ok_iff.mpr ⟨he, hty⟩, rfl,
      rfl⟩

theorem labelStmt_ok_iff {l : String} :
    labelStmt l s = .ok st s' ↔ st = ⟨s.current.line, .label l⟩ ∧ s' = s.advance := by
  simp only [labelStmt, bind_ok_iff, next_ok_iff, pure_ok_iff]
  constructor
  · rintro ⟨_, _, ⟨rfl, rfl⟩, rfl, rfl⟩
    exact ⟨rfl, rfl⟩
  · rintro ⟨rfl, rfl⟩
    exact ⟨_, _, ⟨rfl, rfl⟩, rfl, rfl⟩

theorem labelName_ok_iff {l : String} :
    labelName s = .ok l s' ↔ s.current.kind = .name l ∧ s' = s.advance := by
  rw [labelName, peek_bind]
  constructor
  · intro h
    cases hk : s.current.kind with
    | name l' =>
      rw [hk] at h
      cases h
      exact ⟨rfl, rfl⟩
    | _ =>
      rw [hk] at h
      exact (unexpected_ok_iff.mp h).elim
  · rintro ⟨hk, rfl⟩
    rw [hk]
    rfl

theorem goToStmt_ok_iff :
    goToStmt s = .ok st s' ↔
      ∃ l e m, s.advance.current.kind = .openBracket ∧
        s.advance.advance.current.kind = .name l ∧
        s.advance.advance.advance.current.kind = .closeBracket ∧
        s.advance.advance.advance.advance.current.kind = .openParen ∧
        Reads (.expr 0 e) s.advance.advance.advance.advance.advance m ∧
        m.current.kind = .closeParen ∧ e.isBoolean .control = true ∧
        st = ⟨s.current.line, .goTo l e⟩ ∧ s' = m.advance := by
  simp only [goToStmt, Rule.goToStmt, liftM_eq, bind_ok_iff, next_ok_iff, expect_ok_iff,
    labelName_ok_iff, expr_ok_iff]
  constructor
  · rintro ⟨_, _, ⟨rfl, rfl⟩, _, _, ⟨h₁, rfl⟩, l, _, ⟨h₂, rfl⟩, _, _, ⟨h₃, rfl⟩, _, _, ⟨h₄, rfl⟩,
      e, m, he, _, _, ⟨h₅, rfl⟩, h⟩
    split at h
    · rename_i hb
      obtain ⟨rfl, rfl⟩ := pure_ok_iff.mp h
      exact ⟨l, e, m, h₁, h₂, h₃, h₄, he, h₅, hb, rfl, rfl⟩
    · exact (fail_ok_iff.mp h).elim
  · rintro ⟨l, e, m, h₁, h₂, h₃, h₄, he, h₅, hb, rfl, rfl⟩
    refine ⟨_, _, ⟨rfl, rfl⟩, (), _, ⟨h₁, rfl⟩, l, _, ⟨h₂, rfl⟩, (), _, ⟨h₃, rfl⟩, (), _, ⟨h₄, rfl⟩,
      e, m, he, (), _, ⟨h₅, rfl⟩, ?_⟩
    rw [if_pos hb]
    rfl

/-- Spelling comes before kind: a command or a query is known by its word alone. -/
theorem stmt_ok_iff :
    stmt s = .ok st s' ↔
      (∃ c, Command.ofKeyword? s.current.lexeme = some c ∧ commandStmt c s = .ok st s') ∨
      (Command.ofKeyword? s.current.lexeme = none ∧
        ((∃ q, Query.ofKeyword? s.current.lexeme = some q) ∧ discardStmt s = .ok st s' ∨
          Query.ofKeyword? s.current.lexeme = none ∧
            ((∃ x, s.current.kind = .name x ∧ s.following.kind = .arrow ∧
                assignStmt x s = .ok st s') ∨
              (∃ l, s.current.kind = .name l ∧
                (s.following.kind = .newLine ∨ s.following.kind = .endOfInput) ∧
                labelStmt l s = .ok st s') ∨
              (s.current.kind = .goTo ∧ goToStmt s = .ok st s')))) := by
  simp only [stmt, Rule.stmt, liftM_eq, bind_ok_iff, get_ok_iff]
  constructor
  · rintro ⟨_, _, ⟨rfl, rfl⟩, h⟩
    cases hc : Command.ofKeyword? s.current.lexeme with
    | some c =>
      simp only [hc] at h
      exact .inl ⟨c, rfl, h⟩
    | none =>
      cases hq : Query.ofKeyword? s.current.lexeme with
      | some q =>
        simp only [hc, hq] at h
        exact .inr ⟨rfl, .inl ⟨⟨q, rfl⟩, h⟩⟩
      | none =>
        refine .inr ⟨rfl, .inr ⟨rfl, ?_⟩⟩
        cases hk : s.current.kind with
        | name x =>
          cases hf : s.following.kind with
          | arrow =>
            simp only [hc, hq, hk, hf] at h
            exact .inl ⟨x, rfl, rfl, h⟩
          | newLine =>
            simp only [hc, hq, hk, hf] at h
            exact .inr (.inl ⟨x, rfl, .inl rfl, h⟩)
          | endOfInput =>
            simp only [hc, hq, hk, hf] at h
            exact .inr (.inl ⟨x, rfl, .inr rfl, h⟩)
          | _ =>
            simp only [hc, hq, hk, hf] at h
            exact (fail_ok_iff.mp h).elim
        | goTo =>
          simp only [hc, hq, hk] at h
          exact .inr (.inr ⟨rfl, h⟩)
        | _ =>
          simp only [hc, hq, hk] at h
          exact (fail_ok_iff.mp h).elim
  · intro h
    refine ⟨s, s, ⟨rfl, rfl⟩, ?_⟩
    obtain ⟨c, hc, h⟩ | ⟨hc, ⟨⟨q, hq⟩, h⟩ | ⟨hq, h⟩⟩ := h
    · simp only [hc]
      exact h
    · simp only [hc, hq]
      exact h
    · obtain ⟨x, hk, hf, h⟩ | ⟨l, hk, hf | hf, h⟩ | ⟨hk, h⟩ := h
      · simp only [hc, hq, hk, hf]
        exact h
      · simp only [hc, hq, hk, hf]
        exact h
      · simp only [hc, hq, hk, hf]
        exact h
      · simp only [hc, hq, hk]
        exact h

theorem skipNewLines_ok_iff {u : Unit} :
    skipNewLines s = .ok u s' ↔
      s' = { s with rest := s.rest.dropWhile fun t => t.kind = .newLine } := by
  show EStateM.Result.ok () _ = EStateM.Result.ok u s' ↔ _
  simp [eq_comm]

theorem endOfStmt_ok_iff {u : Unit} :
    endOfStmt s = .ok u s' ↔
      (s.rest = [] ∧ s' = s) ∨ (s.current.kind = .newLine ∧ s' = s.advance) := by
  simp only [endOfStmt, bind_ok_iff, atEnd_ok_iff]
  constructor
  · rintro ⟨b, _, ⟨rfl, rfl⟩, h⟩
    split at h
    · rename_i he
      exact .inl ⟨List.isEmpty_iff.mp he, (pure_ok_iff.mp h).2.symm⟩
    · exact .inr (expect_ok_iff.mp h)
  · rintro (⟨he, rfl⟩ | ⟨hk, rfl⟩)
    · exact ⟨true, s', ⟨by simp [he], rfl⟩, rfl⟩
    · obtain ⟨ts, hs, _⟩ := Stream.exists_cons (s := s) (by simp [hk])
      exact ⟨false, s, ⟨by simp [hs], rfl⟩, expect_ok_iff.mpr ⟨hk, rfl⟩⟩

/-- After blank lines there is the end, or a statement that is ended and followed by others. -/
theorem stmts_ok_iff {fuel : Nat} {p : Program} :
    stmts (fuel + 1) s = .ok p s' ↔
      ∃ m, m = { s with rest := s.rest.dropWhile fun t => t.kind = .newLine } ∧
        ((m.rest = [] ∧ p = [] ∧ s' = m) ∨
          (m.rest ≠ [] ∧ ∃ st p' m₁ m₂, stmt m = .ok st m₁ ∧
            ((m₁.rest = [] ∧ m₂ = m₁) ∨ (m₁.current.kind = .newLine ∧ m₂ = m₁.advance)) ∧
            stmts fuel m₂ = .ok p' s' ∧ p = st :: p')) := by
  simp only [stmts, Rule.stmts, liftM_eq, bind_ok_iff, skipNewLines_ok_iff, atEnd_ok_iff]
  constructor
  · rintro ⟨_, m, hm, b, _, ⟨rfl, rfl⟩, h⟩
    refine ⟨m, hm, ?_⟩
    split at h
    · rename_i he
      obtain ⟨rfl, rfl⟩ := pure_ok_iff.mp h
      exact .inl ⟨List.isEmpty_iff.mp he, rfl, rfl⟩
    · rename_i he
      simp only [bind_ok_iff, pure_ok_iff] at h
      obtain ⟨st, m₁, hst, _, m₂, hend, p', _, hp, rfl, rfl⟩ := h
      refine .inr ⟨?_, st, p', m₁, m₂, hst, endOfStmt_ok_iff.mp hend, hp, rfl⟩
      simpa using he
  · rintro ⟨m, hm, ⟨he, rfl, rfl⟩ | ⟨he, st, p', m₁, m₂, hst, hend, hp, rfl⟩⟩
    · exact ⟨(), s', hm, true, s', ⟨by simp [he], rfl⟩, rfl⟩
    · refine ⟨(), m, hm, false, m, ⟨by simpa using he, rfl⟩, ?_⟩
      simp only [Bool.false_eq_true, if_false, bind_ok_iff, pure_ok_iff]
      exact ⟨st, m₁, hst, (), m₂, endOfStmt_ok_iff.mpr hend, p', s', hp, rfl, rfl⟩

end Parser

/-! ## Vetted statements -/

/-- The statement has passed every check that is made before anything runs. -/
inductive Action.Vetted : Action → Prop where
  | assign {x : String} {ty : Ty} {e : Expr} : e.Normal → e.shape? .value = some ty →
      Vetted (.assign x ty e)
  | command {c : Command} {args : List Expr} : (∀ e ∈ args, e.Normal) →
      Param.checkAll c.keyword c.params args = .ok () → Vetted (.command c args)
  | label {l : String} : Vetted (.label l)
  | goTo {l : String} {e : Expr} : e.Normal → e.isBoolean .control = true → Vetted (.goTo l e)
  | discard {e : Expr} {ty : Ty} : e.Normal → e.shape? .value = some ty → Vetted (.discard e)

theorem Parser.vetted_of_stmt {s s' : Stream} {st : Stmt} (h : stmt s = .ok st s') :
    st.action.Vetted := by
  obtain ⟨c, _, h⟩ | ⟨_, ⟨_, h⟩ | ⟨_, ⟨x, _, _, h⟩ | ⟨l, _, _, h⟩ | ⟨_, h⟩⟩⟩ := stmt_ok_iff.mp h
  · obtain ⟨args, ha, hc, rfl⟩ := commandStmt_ok_iff.mp h
    exact .command ha.normal hc
  · obtain ⟨e, ty, he, hty, rfl⟩ := discardStmt_ok_iff.mp h
    exact .discard he.normal.1 hty
  · obtain ⟨_, e, ty, he, hty, rfl⟩ := assignStmt_ok_iff.mp h
    exact .assign he.normal.1 hty
  · obtain ⟨rfl, _⟩ := labelStmt_ok_iff.mp h
    exact .label
  · obtain ⟨l, e, m, _, _, _, _, he, _, hb, rfl, _⟩ := goToStmt_ok_iff.mp h
    exact .goTo he.normal.1 hb

theorem Parser.vetted_of_stmts {fuel : Nat} :
    ∀ {s s' : Stream} {p : Program}, stmts fuel s = .ok p s' → ∀ st ∈ p, st.action.Vetted := by
  induction fuel with
  | zero =>
    intro s s' p h st hst
    obtain ⟨rfl, _⟩ := pure_ok_iff.mp h
    cases hst
  | succ fuel ih =>
    intro s s' p h st hst
    obtain ⟨m, _, ⟨_, rfl, _⟩ | ⟨_, st', p', m₁, m₂, hs, _, hp, rfl⟩⟩ := stmts_ok_iff.mp h
    · cases hst
    · rcases List.mem_cons.mp hst with rfl | hst
      · exact vetted_of_stmt hs
      · exact ih hp st hst

/-- Every statement of a parsed program is vetted, whatever the tokens were. -/
theorem Program.vetted_of_parse {ts : List Token} {p : Program} (h : parse ts = .ok p) :
    ∀ st ∈ p, st.action.Vetted := by
  simp only [parse, Parser.run] at h
  split at h
  · rename_i p' s' hp
    cases h
    exact Parser.vetted_of_stmts hp
  · cases h

end Easel
