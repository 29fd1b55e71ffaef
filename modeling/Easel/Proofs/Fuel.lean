import Easel.Proofs.Reading

/-!
# Easel.Proofs.Fuel

The expression parsers count their calls down from `fuel`, and the fuel of a stream is always
enough: under as much of it as `Goal.need` asks for, a parser succeeds exactly when there is a
reading (`Parser.runs_iff_reads`).

* `Parser.exprWithin_ok_iff` and its companions: what one call of a parser can do.
* `Parser.expr_ok_iff`: `Parser.expr` in terms of readings alone.
-/

namespace Easel

namespace Goal

/-- The parser of a goal, under the given fuel, finds what the goal says and stops at `s'`. -/
def Runs (fuel : Nat) (s s' : Stream) : Goal → Prop
  | .expr power e => Parser.exprWithin fuel power s = .ok e s'
  | .operators power lhs e => Parser.operators fuel power lhs s = .ok e s'
  | .operand e => Parser.operand fuel s = .ok e s'
  | .arguments name line es => Parser.arguments fuel name line s = .ok es s'
  | .moreArguments name line es => Parser.moreArguments fuel name line s = .ok es s'

/-- Fuel for all the calls that the tokens of a stream can cause. At the end of the input no
argument list begins. -/
def need (s : Stream) : Goal → Nat
  | .expr _ _ => 2 * s.rest.length + 3
  | .operators _ _ _ => 2 * s.rest.length + 2
  | .operand _ => 2 * s.rest.length + 2
  | .arguments _ _ _ => if s.rest = [] then 1 else 2 * s.rest.length + 3
  | .moreArguments _ _ _ => 2 * s.rest.length + 4

theorem exists_succ_of_need_le {g : Goal} {s : Stream} {fuel : Nat} (h : g.need s ≤ fuel) :
    ∃ k, fuel = k + 1 := by
  refine Nat.exists_eq_add_one_of_ne_zero fun h₀ => ?_
  cases g <;> simp only [need] at h <;> (try split at h) <;> omega

theorem need_arguments_le {s : Stream} {name : String} {line fuel : Nat} {es : List Expr}
    (h : 2 * s.rest.length + 2 ≤ fuel + 1) :
    (arguments name line es).need s.advance ≤ fuel := by
  have hlen := s.length_advance
  simp only [need]
  split
  · omega
  · rename_i hne
    have := List.length_pos_iff.mpr hne
    omega

theorem need_moreArguments_le {s : Stream} {name : String} {line fuel : Nat} {es : List Expr}
    (ho : s.current.kind = .openParen) (h : (arguments name line es).need s ≤ fuel + 1) :
    (moreArguments name line es).need s.advance ≤ fuel := by
  obtain ⟨ts, hs, hts⟩ := Stream.exists_cons (s := s) (by simp [ho])
  simp only [need, hs, hts, List.length_cons, reduceCtorEq, if_false] at h ⊢
  omega

end Goal

namespace Parser

theorem exprWithin_ok_iff {fuel power : Nat} {e : Expr} {s s' : Stream} :
    exprWithin (fuel + 1) power s = .ok e s' ↔
      ∃ e₀ s₀, operand fuel s = .ok e₀ s₀ ∧ operators fuel power e₀ s₀ = .ok e s' := by
  rw [exprWithin, Rule.exprWithin, bind_ok_iff]

theorem operators_ok_iff {fuel power : Nat} {lhs e : Expr} {s s' : Stream} :
    operators (fuel + 1) power lhs s = .ok e s' ↔
      (s.Stops power ∧ lhs = e ∧ s = s') ∨
        ∃ op, s.current.kind = .operator op ∧ power ≤ op.leftPower ∧
          ∃ rhs s₁, exprWithin fuel op.rightPower s.advance = .ok rhs s₁ ∧
            operators fuel power (.binary lhs op rhs) s₁ = .ok e s' := by
  rw [operators, Rule.operators, bind_ok_iff]
  constructor
  · rintro ⟨t, s₁, hp, h⟩
    obtain ⟨rfl, rfl⟩ := peek_ok_iff.mp hp
    cases hb : s.current.kind.binaryOp? with
    | none =>
      simp only [hb] at h
      obtain ⟨rfl, rfl⟩ := pure_ok_iff.mp h
      refine .inl ⟨fun op ho => ?_, rfl, rfl⟩
      rw [ho] at hb
      cases hb
    | some op =>
      have hk := TokenKind.binaryOp?_eq_some_iff.mp hb
      simp only [hb] at h
      split at h
      · rename_i hlt
        obtain ⟨rfl, rfl⟩ := pure_ok_iff.mp h
        refine .inl ⟨fun op' ho => ?_, rfl, rfl⟩
        rw [hk] at ho
        cases ho
        exact hlt
      · rename_i hge
        simp only [liftM_eq, bind_ok_iff, next_ok_iff] at h
        obtain ⟨_, _, ⟨rfl, rfl⟩, rhs, s₁, hr, h⟩ := h
        exact .inr ⟨op, hk, Nat.le_of_not_lt hge, rhs, s₁, hr, h⟩
  · rintro (⟨hs, rfl, rfl⟩ | ⟨op, hk, hp, rhs, s₁, hr, h⟩)
    · refine ⟨s.current, s, rfl, ?_⟩
      cases hb : s.current.kind.binaryOp? with
      | none => rfl
      | some op =>
        have hlt := hs op (TokenKind.binaryOp?_eq_some_iff.mp hb)
        simp only [if_pos hlt, pure_ok_iff, and_self]
    · refine ⟨s.current, s, rfl, ?_⟩
      have hb : s.current.kind.binaryOp? = some op := by rw [hk]; rfl
      simp only [hb, if_neg (Nat.not_lt.mpr hp), liftM_eq, bind_ok_iff, next_ok_iff]
      exact ⟨_, _, ⟨rfl, rfl⟩, rhs, s₁, hr, h⟩

-- An operand is known by the current token; so the stream is opened until that token is there.
theorem operand_of_leaf {fuel : Nat} {e : Expr} {s : Stream}
    (h : s.current.kind.leaf? = some e) : operand (fuel + 1) s = .ok e s.advance := by
  obtain ⟨_ | ⟨⟨k, lexeme, l⟩, ts⟩, endLexeme, endLine⟩ := s
  · cases h
  · cases k <;> cases h <;> rfl

theorem operand_of_unary {fuel : Nat} {op : UnaryOp} {s : Stream}
    (h : s.current.kind.unaryOp? = some op) :
    operand (fuel + 1) s =
      (do return .unary op (← exprWithin fuel UnaryOp.power) : Parser Expr) s.advance := by
  obtain ⟨_ | ⟨⟨k, lexeme, l⟩, ts⟩, endLexeme, endLine⟩ := s
  · cases h
  · cases k with
    | not => cases h; rfl
    | operator o =>
      rcases o with (_ | _ | _ | _ | _ | _) | _ | _ | _ <;> cases h
      rfl
    | _ => cases h

theorem operand_of_group {fuel : Nat} {s : Stream} (h : s.current.kind = .openParen) :
    operand (fuel + 1) s =
      (do let e ← exprWithin fuel 0
          expect .closeParen "`)`"
          return .group e : Parser Expr) s.advance := by
  obtain ⟨_ | ⟨⟨k, lexeme, l⟩, ts⟩, endLexeme, endLine⟩ := s
  · cases h
  · cases h
    rfl

theorem operand_of_word {fuel : Nat} {s : Stream} (h : s.current.kind.opensOperand = false) :
    operand (fuel + 1) s =
      match Query.ofKeyword? s.current.lexeme with
      | none => unexpected "an expression" s
      | some q =>
        (do let args ← arguments fuel q.keyword s.current.line
            require s.current.line (Param.checkAll q.keyword q.params args)
            return .call q args : Parser Expr) s.advance := by
  have hs : operand (fuel + 1) s =
      (match Query.ofKeyword? s.current.lexeme with
        | none => unexpected "an expression"
        | some q => do
          let _ ← next
          let args ← arguments fuel q.keyword s.current.line
          require s.current.line (Param.checkAll q.keyword q.params args)
          return .call q args : Parser Expr) s := by
    obtain ⟨_ | ⟨⟨k, lexeme, l⟩, ts⟩, endLexeme, endLine⟩ := s
    · rfl
    · cases k with
      | number n | bool b | text x | name x | openParen | not => cases h
      | operator op =>
        cases op with
        | arith a =>
          cases a with
          | sub => cases h
          | _ => rfl
        | _ => rfl
      | _ => rfl
  rw [hs]
  cases Query.ofKeyword? s.current.lexeme <;> rfl

theorem arguments_ok_iff {fuel line : Nat} {name : String} {es : List Expr} {s s' : Stream} :
    arguments (fuel + 1) name line s = .ok es s' ↔
      s.current.kind = .openParen ∧
        ((s.advance.current.kind = .closeParen ∧ es = [] ∧ s' = s.advance.advance) ∨
          (s.advance.current.kind ≠ .closeParen ∧
            moreArguments fuel name line s.advance = .ok es s')) := by
  simp only [arguments, Rule.arguments, liftM_eq, bind_ok_iff, expect_ok_iff, eat_ok_iff]
  constructor
  · rintro ⟨_, _, ⟨ho, rfl⟩, b, s₂, ⟨hc, rfl, rfl⟩ | ⟨hc, rfl, rfl⟩, h⟩
    · obtain ⟨rfl, rfl⟩ := pure_ok_iff.mp h
      exact ⟨ho, .inl ⟨hc, rfl, rfl⟩⟩
    · exact ⟨ho, .inr ⟨hc, h⟩⟩
  · rintro ⟨ho, ⟨hc, rfl, rfl⟩ | ⟨hc, h⟩⟩
    · exact ⟨(), _, ⟨ho, rfl⟩, true, _, .inl ⟨hc, rfl, rfl⟩, rfl⟩
    · exact ⟨(), _, ⟨ho, rfl⟩, false, _, .inr ⟨hc, rfl, rfl⟩, h⟩

theorem moreArguments_ok_iff {fuel line : Nat} {name : String} {es : List Expr} {s s' : Stream} :
    moreArguments (fuel + 1) name line s = .ok es s' ↔
      ∃ e s₁, exprWithin fuel 0 s = .ok e s₁ ∧
        ((s₁.current.kind = .closeParen ∧ es = [e] ∧ s' = s₁.advance) ∨
          (s₁.current.kind = .comma ∧ s₁.advance.current.kind ≠ .closeParen ∧
            s₁.advance.current.kind ≠ .newLine ∧ s₁.advance.current.kind ≠ .endOfInput ∧
            ∃ es', moreArguments fuel name line s₁.advance = .ok es' s' ∧ es = e :: es')) := by
  simp only [moreArguments, Rule.moreArguments, liftM_eq, bind_ok_iff, eat_ok_iff]
  constructor
  · rintro ⟨e, s₁, he, b, s₂, ⟨hc, rfl, rfl⟩ | ⟨hc, rfl, rfl⟩, h⟩
    · simp only [if_true, bind_ok_iff, peek_ok_iff] at h
      obtain ⟨_, _, ⟨rfl, rfl⟩, h⟩ := h
      split at h
      · exact (fail_ok_iff.mp h).elim
      · rename_i hk
        obtain ⟨es', s₃, hm, h⟩ := bind_ok_iff.mp h
        obtain ⟨rfl, rfl⟩ := pure_ok_iff.mp h
        simp only [not_or] at hk
        exact ⟨e, s₁, he, .inr ⟨hc, hk.1, hk.2.1, hk.2.2, es', hm, rfl⟩⟩
    · simp only [Bool.false_eq_true, if_false, bind_ok_iff, eat_ok_iff] at h
      obtain ⟨b, s₂, ⟨hk, rfl, rfl⟩ | ⟨hk, rfl, rfl⟩, h⟩ := h
      · obtain ⟨rfl, rfl⟩ := pure_ok_iff.mp h
        exact ⟨e, _, he, .inl ⟨hk, rfl, rfl⟩⟩
      · simp only [Bool.false_eq_true, if_false, bind_ok_iff, fail_ok_iff, and_false,
          exists_false] at h
  · rintro ⟨e, s₁, he, ⟨hc, rfl, rfl⟩ | ⟨hc, h₁, h₂, h₃, es', hm, rfl⟩⟩
    · refine ⟨e, s₁, he, false, s₁, .inr ⟨by simp [hc], rfl, rfl⟩, ?_⟩
      simp only [Bool.false_eq_true, if_false, bind_ok_iff, eat_ok_iff]
      exact ⟨true, _, .inl ⟨hc, rfl, rfl⟩, rfl⟩
    · refine ⟨e, s₁, he, true, _, .inl ⟨hc, rfl, rfl⟩, ?_⟩
      simp only [if_true, bind_ok_iff, peek_ok_iff]
      refine ⟨_, _, ⟨rfl, rfl⟩, ?_⟩
      rw [if_neg (by simp [h₁, h₂, h₃])]
      exact bind_ok_iff.mpr ⟨es', s', hm, rfl⟩

/-- The fuel that suffices for `fuel` calls lets every parser that succeeds be read off. -/
def Sound (fuel : Nat) : Prop :=
  ∀ (g : Goal) (s s' : Stream), g.need s ≤ fuel → g.Runs fuel s s' → Reads g s s'

section Step

variable {fuel : Nat} {s s' : Stream}

theorem reads_of_exprWithin (ih : Sound fuel) {power : Nat} {e : Expr}
    (hn : 2 * s.rest.length + 3 ≤ fuel + 1) (h : exprWithin (fuel + 1) power s = .ok e s') :
    Reads (.expr power e) s s' := by
  obtain ⟨e₀, s₀, h₀, h⟩ := exprWithin_ok_iff.mp h
  have r₀ : Reads (.operand e₀) s s₀ := ih (.operand e₀) s s₀ (by simp only [Goal.need]; omega) h₀
  have hlt : s₀.rest.length < s.rest.length := r₀.shrinks
  exact .expr r₀ (ih (.operators power e₀ e) s₀ s' (by simp only [Goal.need]; omega) h)

theorem reads_of_operators (ih : Sound fuel) {power : Nat} {lhs e : Expr}
    (hn : 2 * s.rest.length + 2 ≤ fuel + 1) (h : operators (fuel + 1) power lhs s = .ok e s') :
    Reads (.operators power lhs e) s s' := by
  obtain ⟨hs, rfl, rfl⟩ | ⟨op, hk, hp, rhs, s₁, hr, h⟩ := operators_ok_iff.mp h
  · exact .stop hs
  · have hlt : s.advance.rest.length < s.rest.length := Stream.length_advance_lt (by simp [hk])
    have r : Reads (.expr op.rightPower rhs) s.advance s₁ :=
      ih (.expr op.rightPower rhs) s.advance s₁ (by simp only [Goal.need]; omega) hr
    have hlt₁ : s₁.rest.length < s.advance.rest.length := r.shrinks
    exact .operator hk hp r
      (ih (.operators power (.binary lhs op rhs) e) s₁ s' (by simp only [Goal.need]; omega) h)

theorem reads_of_operand (ih : Sound fuel) {e : Expr} (hn : 2 * s.rest.length + 2 ≤ fuel + 1)
    (h : operand (fuel + 1) s = .ok e s') : Reads (.operand e) s s' := by
  by_cases ho : s.current.kind.opensOperand = true
  · have hlt : s.advance.rest.length < s.rest.length :=
      Stream.length_advance_lt fun hk => by rw [hk] at ho; cases ho
    cases hl : s.current.kind.leaf? with
    | some e₁ =>
      rw [operand_of_leaf hl] at h
      cases h
      exact .leaf hl
    | none =>
      cases hu : s.current.kind.unaryOp? with
      | some op =>
        simp only [operand_of_unary hu, bind_ok_iff] at h
        obtain ⟨e₁, s₁, h₁, h⟩ := h
        cases h
        exact .unary hu
          (ih (.expr UnaryOp.power e₁) s.advance s' (by simp only [Goal.need]; omega) h₁)
      | none =>
        have hk : s.current.kind = .openParen := by
          simpa [TokenKind.opensOperand, hl, hu] using ho
        simp only [operand_of_group hk, bind_ok_iff, expect_ok_iff] at h
        obtain ⟨e₁, s₁, h₁, _, _, ⟨hc, rfl⟩, h⟩ := h
        cases h
        exact .group hk
          (ih (.expr 0 e₁) s.advance s₁ (by simp only [Goal.need]; omega) h₁) hc
  · rw [Bool.not_eq_true] at ho
    rw [operand_of_word ho] at h
    cases hq : Query.ofKeyword? s.current.lexeme with
    | none =>
      rw [hq] at h
      exact (unexpected_ok_iff.mp h).elim
    | some q =>
      simp only [hq, bind_ok_iff, require_ok_iff] at h
      obtain ⟨args, s₁, ha, _, _, ⟨hc, rfl⟩, h⟩ := h
      cases h
      exact .call ho hq (ih (.arguments q.keyword s.current.line args) s.advance s'
        (Goal.need_arguments_le hn) ha) hc

theorem reads_of_arguments (ih : Sound fuel) {name : String} {line : Nat} {es : List Expr}
    (hn : (Goal.arguments name line es).need s ≤ fuel + 1)
    (h : arguments (fuel + 1) name line s = .ok es s') :
    Reads (.arguments name line es) s s' := by
  obtain ⟨ho, ⟨hc, rfl, rfl⟩ | ⟨hc, h⟩⟩ := arguments_ok_iff.mp h
  · exact .noArguments ho hc
  · exact .arguments ho hc (ih (.moreArguments name line es) s.advance s'
      (Goal.need_moreArguments_le ho hn) h)

theorem reads_of_moreArguments (ih : Sound fuel) {name : String} {line : Nat} {es : List Expr}
    (hn : 2 * s.rest.length + 4 ≤ fuel + 1)
    (h : moreArguments (fuel + 1) name line s = .ok es s') :
    Reads (.moreArguments name line es) s s' := by
  obtain ⟨e, s₁, he, hm⟩ := moreArguments_ok_iff.mp h
  have r : Reads (.expr 0 e) s s₁ := ih (.expr 0 e) s s₁ (by simp only [Goal.need]; omega) he
  have hlt : s₁.rest.length < s.rest.length := r.shrinks
  have hle := s₁.length_advance_le
  obtain ⟨hc, rfl, rfl⟩ | ⟨hc, h₁, h₂, h₃, es', hm, rfl⟩ := hm
  · exact .lastArgument r hc
  · exact .comma r hc h₁ h₂ h₃
      (ih (.moreArguments name line es') s₁.advance s' (by simp only [Goal.need]; omega) hm)

end Step

theorem sound (fuel : Nat) : Sound fuel := by
  induction fuel with
  | zero =>
    intro g s s' hn
    obtain ⟨k, hk⟩ := Goal.exists_succ_of_need_le hn
    cases hk
  | succ fuel ih =>
    intro g s s' hn h
    cases g with
    | expr power e => exact reads_of_exprWithin ih hn h
    | operators power lhs e => exact reads_of_operators ih hn h
    | operand e => exact reads_of_operand ih hn h
    | arguments name line es => exact reads_of_arguments ih hn h
    | moreArguments name line es => exact reads_of_moreArguments ih hn h

/-- A reading is found under any fuel from `Goal.need` on. -/
theorem runs_of_reads {g : Goal} {s s' : Stream} (h : Reads g s s') :
    ∀ fuel, g.need s ≤ fuel → g.Runs fuel s s' := by
  induction h with
  | @expr power e₀ e s s₀ s' h₀ _ ih₀ ih =>
    intro fuel hn
    obtain ⟨fuel, rfl⟩ := Goal.exists_succ_of_need_le hn
    have hlt : s₀.rest.length < s.rest.length := h₀.shrinks
    simp only [Goal.need] at hn ih₀ ih
    exact exprWithin_ok_iff.mpr ⟨e₀, s₀, ih₀ fuel (by omega), ih fuel (by omega)⟩
  | stop hs =>
    intro fuel hn
    obtain ⟨fuel, rfl⟩ := Goal.exists_succ_of_need_le hn
    exact operators_ok_iff.mpr (.inl ⟨hs, rfl, rfl⟩)
  | @operator power lhs rhs e op s s₁ s' hk hp hr _ ihr ih =>
    intro fuel hn
    obtain ⟨fuel, rfl⟩ := Goal.exists_succ_of_need_le hn
    have hlt : s.advance.rest.length < s.rest.length := Stream.length_advance_lt (by simp [hk])
    have hlt₁ : s₁.rest.length < s.advance.rest.length := hr.shrinks
    simp only [Goal.need] at hn ihr ih
    exact operators_ok_iff.mpr
      (.inr ⟨op, hk, hp, rhs, s₁, ihr fuel (by omega), ih fuel (by omega)⟩)
  | leaf hl =>
    intro fuel hn
    obtain ⟨fuel, rfl⟩ := Goal.exists_succ_of_need_le hn
    exact operand_of_leaf hl
  | @unary op e s s' hu _ ih =>
    intro fuel hn
    obtain ⟨fuel, rfl⟩ := Goal.exists_succ_of_need_le hn
    have hlt : s.advance.rest.length < s.rest.length :=
      Stream.length_advance_lt fun hk => by rw [hk] at hu; cases hu
    simp only [Goal.need] at hn ih
    simp only [Goal.Runs, operand_of_unary hu, bind_ok_iff]
    exact ⟨e, s', ih fuel (by omega), rfl⟩
  | @group e s s₁ hk _ hc ih =>
    intro fuel hn
    obtain ⟨fuel, rfl⟩ := Goal.exists_succ_of_need_le hn
    have hlt : s.advance.rest.length < s.rest.length := Stream.length_advance_lt (by simp [hk])
    simp only [Goal.need] at hn ih
    simp only [Goal.Runs, operand_of_group hk, bind_ok_iff, expect_ok_iff]
    exact ⟨e, s₁, ih fuel (by omega), (), _, ⟨hc, rfl⟩, rfl⟩
  | @call q args s s' ho hq ha hc ih =>
    intro fuel hn
    obtain ⟨fuel, rfl⟩ := Goal.exists_succ_of_need_le hn
    simp only [Goal.Runs, operand_of_word ho, hq, bind_ok_iff, require_ok_iff]
    exact ⟨args, s', ih fuel (Goal.need_arguments_le hn), (), _, ⟨hc, rfl⟩, rfl⟩
  | noArguments ho hc =>
    intro fuel hn
    obtain ⟨fuel, rfl⟩ := Goal.exists_succ_of_need_le hn
    exact arguments_ok_iff.mpr ⟨ho, .inl ⟨hc, rfl, rfl⟩⟩
  | @arguments name line es s s' ho hc _ ih =>
    intro fuel hn
    obtain ⟨fuel, rfl⟩ := Goal.exists_succ_of_need_le hn
    exact arguments_ok_iff.mpr ⟨ho, .inr ⟨hc, ih fuel (Goal.need_moreArguments_le ho hn)⟩⟩
  | @lastArgument name line e s s₁ _ hc ih =>
    intro fuel hn
    obtain ⟨fuel, rfl⟩ := Goal.exists_succ_of_need_le hn
    simp only [Goal.need] at hn ih
    exact moreArguments_ok_iff.mpr ⟨e, s₁, ih fuel (by omega), .inl ⟨hc, rfl, rfl⟩⟩
  | @comma name line e es s s₁ s' he hc h₁ h₂ h₃ _ ihe ih =>
    intro fuel hn
    obtain ⟨fuel, rfl⟩ := Goal.exists_succ_of_need_le hn
    have hlt : s₁.rest.length < s.rest.length := he.shrinks
    have hle := s₁.length_advance_le
    simp only [Goal.need] at hn ihe ih
    exact moreArguments_ok_iff.mpr
      ⟨e, s₁, ihe fuel (by omega), .inr ⟨hc, h₁, h₂, h₃, es, ih fuel (by omega), rfl⟩⟩

theorem runs_iff_reads {g : Goal} {s s' : Stream} {fuel : Nat} (hn : g.need s ≤ fuel) :
    g.Runs fuel s s' ↔ Reads g s s' :=
  ⟨sound fuel g s s' hn, fun h => runs_of_reads h fuel hn⟩

/-- The fuel of a stream is enough for its tokens. -/
theorem expr_ok_iff {e : Expr} {s s' : Stream} :
    expr s = .ok e s' ↔ Reads (.expr 0 e) s s' := by
  show exprWithin s.fuel 0 s = .ok e s' ↔ _
  exact runs_iff_reads (g := .expr 0 e) (Nat.le_refl _)

end Parser
end Easel
