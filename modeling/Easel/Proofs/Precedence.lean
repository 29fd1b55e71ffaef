import Easel.Proofs.Reading
import Easel.Proofs.Spelling

/-!
# Easel.Proofs.Precedence

Expressions as operator precedence groups them. `Expr.Normal` says of a tree that every operator
stands where its binding powers put it and that every query has passed its check; `Expr.yield` lists
the tokens of a tree in order. Together they say what the parser finds: the one normal tree with
the tokens that were read.

* `Reads.normal`: whatever the tokens, what is read is normal, and it stops where no operator goes
  on with it.
* `Reads.yields`: the tokens that were taken are the tokens of the tree.
* `Expr.Normal.leads`: every normal tree is read off its tokens, whatever may follow them.
-/

namespace Easel

/-! ## Binding powers -/

namespace BinaryOp

/-- The power operator is the only one that holds its right operand less strongly. -/
theorem powers (op : BinaryOp) :
    (op.rightPower = op.leftPower + 1 ∧ op.leftPower ≤ 11) ∨ op = .arith .pow := by
  rcases op with (_ | _ | _ | _ | _ | _) | _ | _ | (_ | _) <;> simp [leftPower, rightPower]

theorem leftPower_lt_unary (op : BinaryOp) : op.leftPower < UnaryOp.power := by
  obtain ⟨_, hl⟩ | rfl := powers op
  · simp only [UnaryOp.power]
    omega
  · decide

/-- What may follow the right operand of `op'` holds no more strongly than `op'` does. -/
theorem leftPower_le_of_lt_rightPower {op op' : BinaryOp} (h : op.leftPower < op'.rightPower) :
    op.leftPower ≤ op'.leftPower := by
  obtain ⟨hr, _⟩ | rfl := powers op'
  · omega
  · simp only [leftPower, rightPower] at h ⊢
    omega

theorem lt_rightPower_of_lt_leftPower {op op' : BinaryOp} (h : op.leftPower < op'.leftPower) :
    op.leftPower < op'.rightPower := by
  obtain ⟨hr, _⟩ | rfl := powers op'
  · omega
  · obtain ⟨_, hl⟩ | rfl := powers op
    · simp only [rightPower]
      omega
    · omega

end BinaryOp

/-! ## Normal expressions -/

namespace Expr

/-- The operator of a binary expression that no parentheses enclose. -/
def operator? : Expr → Option BinaryOp
  | .binary _ op _ => some op
  | _ => none

/-- Every operator stands where its binding powers put it, and every query has passed its check. -/
inductive Normal : Expr → Prop where
  | number {n : Number} : Normal (.number n)
  | bool {b : Bool} : Normal (.bool b)
  | text {s : String} : Normal (.text s)
  | var {x : String} : Normal (.var x)
  | unary {op : UnaryOp} {e : Expr} : Normal e → e.operator? = none → Normal (.unary op e)
  | binary {l r : Expr} {op : BinaryOp} : Normal l → Normal r →
      (∀ op', l.operator? = some op' → ¬ op'.rightPower ≤ op.leftPower) →
      (∀ op', r.operator? = some op' → ¬ op'.leftPower < op.rightPower) →
      Normal (.binary l op r)
  | group {e : Expr} : Normal e → Normal (.group e)
  | call {q : Query} {args : List Expr} : (∀ e ∈ args, Normal e) →
      Param.checkAll q.keyword q.params args = .ok () → Normal (.call q args)

/-- The expression can stand where operators must hold their left operands at least as strongly as
`power`. -/
def Within (power : Nat) (e : Expr) : Prop :=
  ∀ op, e.operator? = some op → power ≤ op.leftPower

/-- No operator that comes next belongs into the expression. -/
def EndsAt (s : Stream) (e : Expr) : Prop :=
  ∀ op, e.operator? = some op → s.Stops op.rightPower

theorem Within.operator?_eq_none {e : Expr} (h : e.Within UnaryOp.power) : e.operator? = none := by
  cases ho : e.operator? with
  | none => rfl
  | some op => exact absurd op.leftPower_lt_unary (Nat.not_lt.mpr (h op ho))

theorem normal_of_leaf {k : TokenKind} {e : Expr} (h : k.leaf? = some e) :
    e.Normal ∧ e.operator? = none := by
  cases k <;> cases h
  · exact ⟨.number, rfl⟩
  · exact ⟨.bool, rfl⟩
  · exact ⟨.text, rfl⟩
  · exact ⟨.var, rfl⟩

end Expr

/-- What is read for a goal is normal. -/
def Goal.Normal (s s' : Stream) : Goal → Prop
  | .expr power e => e.Normal ∧ e.Within power ∧ s'.Stops power
  | .operators power lhs e =>
    lhs.Normal → lhs.Within power → lhs.EndsAt s → e.Normal ∧ e.Within power ∧ s'.Stops power
  | .operand e => e.Normal ∧ e.operator? = none
  | .arguments _ _ es => ∀ e ∈ es, e.Normal
  | .moreArguments _ _ es => ∀ e ∈ es, e.Normal

theorem Reads.normal {g : Goal} {s s' : Stream} (h : Reads g s s') : g.Normal s s' := by
  induction h with
  | expr _ _ ih₀ ih =>
    obtain ⟨hn, ho⟩ := ih₀
    exact ih hn (fun op h => by rw [ho] at h; cases h) (fun op h => by rw [ho] at h; cases h)
  | stop hs => exact fun hn hw _ => ⟨hn, hw, hs⟩
  | @operator power lhs rhs e op s s₁ s' hk hp _ _ ihr ih =>
    intro hn hw he
    obtain ⟨hr, hwr, hs⟩ := ihr
    refine ih (.binary hn hr ?_ ?_) ?_ ?_
    · intro op' ho
      exact Nat.not_le.mpr (he op' ho op hk)
    · intro op' ho
      exact Nat.not_lt.mpr (hwr op' ho)
    · rintro op' ⟨⟩
      exact hp
    · rintro op' ⟨⟩
      exact hs
  | leaf hl => exact Expr.normal_of_leaf hl
  | unary _ _ ih => exact ⟨.unary ih.1 ih.2.1.operator?_eq_none, rfl⟩
  | group _ _ _ ih => exact ⟨.group ih.1, rfl⟩
  | call _ _ _ hc ih => exact ⟨.call ih hc, rfl⟩
  | noArguments _ _ => intro e he; cases he
  | arguments _ _ _ ih => exact ih
  | lastArgument _ _ ih =>
    intro e he
    rw [List.mem_singleton.mp he]
    exact ih.1
  | comma _ _ _ _ _ _ ihe ih =>
    intro e he
    rcases List.mem_cons.mp he with rfl | he
    · exact ihe.1
    · exact ih e he

/-! ## The tokens of an expression -/

def UnaryOp.kind : UnaryOp → TokenKind
  | .neg => .operator (.arith .sub)
  | .not => .not

theorem TokenKind.unaryOp?_eq_some_iff {k : TokenKind} {op : UnaryOp} :
    k.unaryOp? = some op ↔ k = op.kind := by
  constructor
  · intro h
    cases k with
    | not => cases h; rfl
    | operator o => rcases o with (_ | _ | _ | _ | _ | _) | _ | _ | _ <;> cases h; rfl
    | _ => cases h
  · rintro rfl
    cases op <;> rfl

namespace Expr

mutual

/-- The tokens of an expression, in order. -/
def yield : Expr → List TokenKind
  | .number n => [.number n]
  | .bool b => [.bool b]
  | .text s => [.text s]
  | .var x => [.name x]
  | .unary op e => op.kind :: yield e
  | .binary l op r => yield l ++ .operator op :: yield r
  | .group e => .openParen :: (yield e ++ [.closeParen])
  | .call q args => .query q :: .openParen :: (yieldList args ++ [.closeParen])

/-- The tokens of expressions with commas between them. -/
def yieldList : List Expr → List TokenKind
  | [] => []
  | [e] => yield e
  | e :: e' :: es => yield e ++ .comma :: yieldList (e' :: es)

end

theorem yieldList_cons {e : Expr} {es : List Expr} (h : es ≠ []) :
    yieldList (e :: es) = e.yield ++ .comma :: yieldList es := by
  cases es with
  | nil => exact absurd rfl h
  | cons e' es => rw [yieldList]

theorem yield_of_leaf {k : TokenKind} {e : Expr} (h : k.leaf? = some e) : e.yield = [k] := by
  cases k <;> cases h <;> rfl

end Expr

namespace Stream

/-- Every token is spelled as it should be, and so is the end mark. -/
def Spelled (s : Stream) : Prop := s.endLexeme = "" ∧ ∀ t ∈ s.rest, t.Spelled

theorem Spelled.advance {s : Stream} (h : s.Spelled) : s.advance.Spelled :=
  ⟨h.1, fun t ht => h.2 t (List.mem_of_mem_tail ht)⟩

theorem Spelled.of_prepend {s : Stream} {ts : List Token} (h : (s.prepend ts).Spelled) :
    s.Spelled :=
  ⟨h.1, fun t ht => h.2 t (List.mem_append_right ts ht)⟩

theorem Spelled.query_iff {s : Stream} (h : s.Spelled) (q : Query) :
    Query.ofKeyword? s.current.lexeme = some q ↔ s.current.kind = .query q := by
  obtain ⟨rest, lexeme, line⟩ := s
  cases rest with
  | nil =>
    obtain ⟨rfl, _⟩ := h
    constructor
    · intro hq
      cases hq
    · intro hq
      cases hq
  | cons t ts => exact (h.2 t (by simp)).query_iff q

/-- A token that is not the end mark stands before the rest. -/
theorem eq_prepend_current {s : Stream} (h : s.current.kind ≠ .endOfInput) :
    s = s.advance.prepend [s.current] := by
  obtain ⟨rest, lexeme, line⟩ := s
  cases rest with
  | nil => exact absurd rfl h
  | cons t ts => rfl

theorem Stops.mono {s : Stream} {power power' : Nat} (hs : s.Stops power) (h : power ≤ power') :
    s.Stops power' :=
  fun op hk => Nat.lt_of_lt_of_le (hs op hk) h

theorem stops_prepend {s : Stream} {t : Token} {ts : List Token} {power : Nat}
    (h : t.kind.binaryOp? = none) : (s.prepend (t :: ts)).Stops power := by
  intro op hk
  rw [current_prepend] at hk
  rw [hk] at h
  cases h

theorem eq_prepend_cons {s s' : Stream} {ts : List Token} (hk : s.current.kind ≠ .endOfInput)
    (h : s.advance = s'.prepend ts) : s = s'.prepend (s.current :: ts) :=
  calc s = s.advance.prepend [s.current] := eq_prepend_current hk
    _ = (s'.prepend ts).prepend [s.current] := by rw [h]
    _ = s'.prepend (s.current :: ts) := rfl

end Stream

theorem Reads.moreArguments_ne_nil {name : String} {line : Nat} {es : List Expr} {s s' : Stream}
    (h : Reads (.moreArguments name line es) s s') : es ≠ [] := by
  cases h <;> simp

/-- The tokens taken for a goal are those of what it finds. -/
def Goal.Yields (ks : List TokenKind) : Goal → Prop
  | .expr _ e => ks = e.yield
  | .operators _ lhs e => lhs.yield ++ ks = e.yield
  | .operand e => ks = e.yield
  | .arguments _ _ es => ks = .openParen :: (Expr.yieldList es ++ [.closeParen])
  | .moreArguments _ _ es => ks = Expr.yieldList es ++ [.closeParen]

theorem Reads.yields {g : Goal} {s s' : Stream} (h : Reads g s s') :
    s.Spelled → ∃ ts, s = s'.prepend ts ∧ g.Yields (ts.map Token.kind) := by
  induction h with
  | expr _ _ ih₀ ih =>
    intro hs
    obtain ⟨ts₀, rfl, h₀⟩ := ih₀ hs
    obtain ⟨ts, rfl, h⟩ := ih hs.of_prepend
    refine ⟨ts₀ ++ ts, (Stream.prepend_append ..).symm, ?_⟩
    simp only [Goal.Yields, List.map_append] at h₀ h ⊢
    rw [h₀, h]
  | stop _ =>
    intro _
    exact ⟨[], rfl, by simp [Goal.Yields]⟩
  | @operator power lhs rhs e op s s₁ s' hk hp _ _ ihr ih =>
    intro hs
    obtain ⟨ts₁, h₁, hr⟩ := ihr hs.advance
    obtain ⟨ts, rfl, h⟩ := ih (Stream.Spelled.of_prepend (h₁ ▸ hs.advance))
    rw [← Stream.prepend_append] at h₁
    refine ⟨_, Stream.eq_prepend_cons (by simp [hk]) h₁, ?_⟩
    simp only [Goal.Yields, Expr.yield, List.map_append, List.map_cons] at hr h ⊢
    rw [hr, hk, ← h]
    simp
  | @leaf e s hl =>
    intro hs
    have hk : s.current.kind ≠ .endOfInput := fun hk => by rw [hk] at hl; cases hl
    exact ⟨_, Stream.eq_prepend_current hk, (Expr.yield_of_leaf hl).symm⟩
  | @unary op e s s' hu _ ih =>
    intro hs
    obtain ⟨ts, h₁, h⟩ := ih hs.advance
    have hk := TokenKind.unaryOp?_eq_some_iff.mp hu
    refine ⟨_, Stream.eq_prepend_cons (by rw [hk]; cases op <;> simp [UnaryOp.kind]) h₁, ?_⟩
    simp only [Goal.Yields, Expr.yield, List.map_cons] at h ⊢
    rw [h, hk]
  | @group e s s₁ hk _ hc ih =>
    intro hs
    obtain ⟨ts, h₁, h⟩ := ih hs.advance
    rw [Stream.eq_prepend_current (s := s₁) (by simp [hc]), ← Stream.prepend_append] at h₁
    refine ⟨_, Stream.eq_prepend_cons (by simp [hk]) h₁, ?_⟩
    simp only [Goal.Yields, Expr.yield, List.map_append, List.map_cons, List.map_nil] at h ⊢
    rw [h, hk, hc]
  | @call q args s s' ho hq _ _ ih =>
    intro hs
    obtain ⟨ts, h₁, h⟩ := ih hs.advance
    have hk := (hs.query_iff q).mp hq
    refine ⟨_, Stream.eq_prepend_cons (by simp [hk]) h₁, ?_⟩
    simp only [Goal.Yields, Expr.yield, List.map_cons] at h ⊢
    rw [h, hk]
  | @noArguments name line s ho hc =>
    intro hs
    refine ⟨_, Stream.eq_prepend_cons (by simp [ho])
      (Stream.eq_prepend_current (s := s.advance) (by simp [hc])), ?_⟩
    simp [Goal.Yields, Expr.yieldList, ho, hc]
  | @arguments name line es s s' ho _ _ ih =>
    intro hs
    obtain ⟨ts, h₁, h⟩ := ih hs.advance
    refine ⟨_, Stream.eq_prepend_cons (by simp [ho]) h₁, ?_⟩
    simp only [Goal.Yields, List.map_cons] at h ⊢
    rw [h, ho]
  | @lastArgument name line e s s₁ _ hc ih =>
    intro hs
    obtain ⟨ts, h₁, h⟩ := ih hs
    rw [Stream.eq_prepend_current (s := s₁) (by simp [hc]), ← Stream.prepend_append] at h₁
    refine ⟨_, h₁, ?_⟩
    simp only [Goal.Yields, Expr.yieldList, List.map_append, List.map_cons, List.map_nil] at h ⊢
    rw [h, hc]
  | @comma name line e es s s₁ s' _ hc _ _ _ hm ihe ih =>
    intro hs
    obtain ⟨ts, rfl, h⟩ := ihe hs
    obtain ⟨ts', h₁, h'⟩ := ih hs.of_prepend.advance
    rw [Stream.eq_prepend_cons (by simp [hc]) h₁, ← Stream.prepend_append]
    refine ⟨_, rfl, ?_⟩
    simp only [Goal.Yields, List.map_append, List.map_cons] at h h' ⊢
    rw [Expr.yieldList_cons hm.moreArguments_ne_nil, h, h', hc]
    simp

/-! ## Reading a normal expression off its tokens -/

namespace Expr

/-- The first token of an expression neither ends an argument list nor a line. -/
theorem yield_eq_cons (e : Expr) :
    ∃ k ks, e.yield = k :: ks ∧ k ≠ .closeParen ∧ k ≠ .newLine ∧ k ≠ .endOfInput := by
  induction e using Expr.induct with
  | number n | bool b | text s | var x => exact ⟨_, _, rfl, by simp, by simp, by simp⟩
  | unary op e ih =>
    have hk : op.kind ≠ .closeParen ∧ op.kind ≠ .newLine ∧ op.kind ≠ .endOfInput := by
      cases op <;> decide
    exact ⟨op.kind, e.yield, rfl, hk⟩
  | binary l op r ihl ihr =>
    obtain ⟨k, ks, hl, hk⟩ := ihl
    exact ⟨k, ks ++ .operator op :: r.yield, by rw [yield, hl]; rfl, hk⟩
  | group e ih => exact ⟨_, _, rfl, by simp, by simp, by simp⟩
  | call q args ih => exact ⟨_, _, rfl, by simp, by simp, by simp⟩

theorem yieldList_eq_cons (e : Expr) (es : List Expr) :
    ∃ k ks, yieldList (e :: es) = k :: ks ∧ k ≠ .closeParen ∧ k ≠ .newLine ∧ k ≠ .endOfInput := by
  obtain ⟨k, ks, he, hk⟩ := e.yield_eq_cons
  cases es with
  | nil => exact ⟨k, ks, he, hk⟩
  | cons e' es => exact ⟨k, ks ++ .comma :: yieldList (e' :: es), by rw [yieldList, he]; rfl, hk⟩

/-- An expression is led by its tokens into whatever operators do with it. -/
def Leads (e : Expr) : Prop :=
  ∀ ⦃power : Nat⦄ ⦃ts : List Token⦄ ⦃s s' : Stream⦄ ⦃e' : Expr⦄,
    e.Within power → e.EndsAt s → ts.map Token.kind = e.yield → (∀ t ∈ ts, t.Spelled) →
    Reads (.operators power e e') s s' → Reads (.expr power e') (s.prepend ts) s'

/-- A whole expression, where the operator that follows, if any, is kept out. -/
theorem Leads.whole {e : Expr} (h : e.Leads) {power : Nat} {ts : List Token} {s : Stream}
    (hw : e.Within power) (he : e.EndsAt s) (hy : ts.map Token.kind = e.yield)
    (ht : ∀ t ∈ ts, t.Spelled) (hs : s.Stops power) :
    Reads (.expr power e) (s.prepend ts) s :=
  h hw he hy ht (.stop hs)

/-- A whole expression, where no operator at all follows. -/
theorem Leads.argument {e : Expr} (h : e.Leads) {ts : List Token} {s : Stream}
    (hy : ts.map Token.kind = e.yield) (ht : ∀ t ∈ ts, t.Spelled) (hs : s.Stops 0) :
    Reads (.expr 0 e) (s.prepend ts) s :=
  h.whole (fun _ _ => Nat.zero_le _) (fun _ _ => hs.mono (Nat.zero_le _)) hy ht hs

/-- What is read as an operand leads itself. -/
theorem leads_of_operand {e : Expr}
    (h : ∀ (ts : List Token) (s : Stream), ts.map Token.kind = e.yield → (∀ t ∈ ts, t.Spelled) →
      Reads (.operand e) (s.prepend ts) s) : e.Leads :=
  fun _ _ _ _ _ _ _ hy ht ho => .expr (h _ _ hy ht) ho

theorem leads_leaf {k : TokenKind} {e : Expr} (h : k.leaf? = some e) : e.Leads := by
  refine leads_of_operand fun ts s hy _ => ?_
  rw [yield_of_leaf h] at hy
  obtain ⟨t, rfl, rfl⟩ := List.map_eq_singleton_iff.mp hy
  exact .leaf (s := s.prepend [t]) h

theorem leads_unary {op : UnaryOp} {e : Expr} (he : e.Leads) (ho : e.operator? = none) :
    (Expr.unary op e).Leads := by
  refine leads_of_operand fun ts s hy ht => ?_
  obtain ⟨t, ts, rfl, hk, hy⟩ := List.map_eq_cons_iff.mp hy
  refine .unary (s := s.prepend (t :: ts)) (TokenKind.unaryOp?_eq_some_iff.mpr hk) ?_
  refine he.whole ?_ ?_ hy (fun u hu => ht u (by simp [hu])) fun op' _ => op'.leftPower_lt_unary
  · intro op' h
    rw [ho] at h
    cases h
  · intro op' h
    rw [ho] at h
    cases h

theorem leads_group {e : Expr} (he : e.Leads) : (Expr.group e).Leads := by
  refine leads_of_operand fun ts s hy ht => ?_
  obtain ⟨t, us, rfl, hk, hy⟩ := List.map_eq_cons_iff.mp hy
  obtain ⟨ts, cs, rfl, hye, hcs⟩ := List.map_eq_append_iff.mp hy
  obtain ⟨c, rfl, hc⟩ := List.map_eq_singleton_iff.mp hcs
  have hr : Reads (.expr 0 e) ((s.prepend [c]).prepend ts) (s.prepend [c]) :=
    he.argument hye (fun u hu => ht u (by simp [hu])) (Stream.stops_prepend (by rw [hc]; rfl))
  rw [← Stream.prepend_append] at hr
  exact .group (s := s.prepend (t :: (ts ++ [c]))) (m := s.prepend [c]) hk hr hc

/-- The operator is taken in front of the right operand, whose operators it keeps from taking
what comes after. -/
theorem leads_binary {l r : Expr} {op : BinaryOp} (hl : l.Leads) (hr : r.Leads)
    (hol : ∀ op', l.operator? = some op' → ¬ op'.rightPower ≤ op.leftPower)
    (hor : ∀ op', r.operator? = some op' → ¬ op'.leftPower < op.rightPower) :
    (Expr.binary l op r).Leads := by
  intro power ts s s' e' hw he hy ht ho
  obtain ⟨tl, us, rfl, hyl, hy⟩ := List.map_eq_append_iff.mp hy
  obtain ⟨t, tr, rfl, hk, hyr⟩ := List.map_eq_cons_iff.mp hy
  have hp : power ≤ op.leftPower := hw op rfl
  have hs : s.Stops op.rightPower := he op rfl
  have hright : Reads (.expr op.rightPower r) (s.prepend tr) s := by
    refine hr.whole ?_ ?_ hyr (fun u hu => ht u (by simp [hu])) hs
    · exact fun op' h => Nat.not_lt.mp (hor op' h)
    · intro op' h op₂ h₂
      exact BinaryOp.lt_rightPower_of_lt_leftPower
        (Nat.lt_of_lt_of_le (hs op₂ h₂) (Nat.not_lt.mp (hor op' h)))
  rw [Stream.prepend_append]
  refine hl ?_ ?_ hyl (fun u hu => ht u (by simp [hu])) ?_
  · intro op' h
    exact Nat.le_trans hp (BinaryOp.leftPower_le_of_lt_rightPower (Nat.not_le.mp (hol op' h)))
  · intro op' h op₂ h₂
    rw [Stream.current_prepend, hk] at h₂
    cases h₂
    exact Nat.not_le.mp (hol op' h)
  · exact .operator (s := s.prepend (t :: tr)) hk hp hright ho

/-- The tokens of at least one argument and the parenthesis behind them. -/
theorem reads_moreArguments (name : String) (line : Nat) (s : Stream) {c : Token}
    (hc : c.kind = .closeParen) :
    ∀ {args : List Expr} {ts : List Token}, args ≠ [] → (∀ e ∈ args, e.Leads) →
      ts.map Token.kind = yieldList args → (∀ t ∈ ts, t.Spelled) →
      Reads (.moreArguments name line args) ((s.prepend [c]).prepend ts) s := by
  intro args
  induction args with
  | nil => exact fun h => absurd rfl h
  | cons e es ih =>
    intro ts _ hl hy ht
    have he : e.Leads := hl e (by simp)
    cases es with
    | nil =>
      exact .lastArgument (m := s.prepend [c])
        (he.argument hy ht (Stream.stops_prepend (by rw [hc]; rfl))) hc
    | cons e' es =>
      obtain ⟨te, us, rfl, hye, hys⟩ := List.map_eq_append_iff.mp hy
      obtain ⟨t, tes, rfl, hk, hyes⟩ := List.map_eq_cons_iff.mp hys
      have hrest := ih (by simp) (fun x hx => hl x (by simp [hx])) hyes
        fun u hu => ht u (by simp [hu])
      obtain ⟨k, ks, hyk, hk₁, hk₂, hk₃⟩ := yieldList_eq_cons e' es
      rw [hyk] at hyes
      obtain ⟨u, us, rfl, rfl, _⟩ := List.map_eq_cons_iff.mp hyes
      rw [Stream.prepend_append]
      exact .comma (m := (s.prepend [c]).prepend (t :: u :: us))
        (he.argument hye (fun x hx => ht x (by simp [hx]))
          (Stream.stops_prepend (by rw [hk]; rfl)))
        hk hk₁ hk₂ hk₃ hrest

/-- The tokens of an argument list. -/
theorem reads_arguments (name : String) (line : Nat) (s : Stream) {args : List Expr}
    {ts : List Token} (hl : ∀ e ∈ args, e.Leads)
    (hy : ts.map Token.kind = .openParen :: (yieldList args ++ [.closeParen]))
    (ht : ∀ t ∈ ts, t.Spelled) : Reads (.arguments name line args) (s.prepend ts) s := by
  obtain ⟨o, us, rfl, ho, hus⟩ := List.map_eq_cons_iff.mp hy
  obtain ⟨ts, cs, rfl, hya, hcs⟩ := List.map_eq_append_iff.mp hus
  obtain ⟨c, rfl, hc⟩ := List.map_eq_singleton_iff.mp hcs
  cases args with
  | nil =>
    rw [yieldList, List.map_eq_nil_iff] at hya
    subst hya
    exact .noArguments (s := s.prepend [o, c]) ho hc
  | cons e es =>
    have hmore := reads_moreArguments name line s hc (by simp) hl hya
      fun u hu => ht u (by simp [hu])
    obtain ⟨k, ks, hyk, hk, _, _⟩ := yieldList_eq_cons e es
    rw [hyk] at hya
    obtain ⟨u, us, rfl, rfl, _⟩ := List.map_eq_cons_iff.mp hya
    rw [← Stream.prepend_append] at hmore
    exact .arguments (s := s.prepend (o :: u :: us ++ [c])) ho hk hmore

theorem leads_call {q : Query} {args : List Expr} (hl : ∀ e ∈ args, e.Leads)
    (hc : Param.checkAll q.keyword q.params args = .ok ()) : (Expr.call q args).Leads := by
  refine leads_of_operand fun ts s hy ht => ?_
  obtain ⟨t, us, rfl, hk, hus⟩ := List.map_eq_cons_iff.mp hy
  have hq := ((ht t (by simp)).query_iff q).mpr hk
  exact .call (s := s.prepend (t :: us)) (by rw [Stream.current_prepend, hk]; rfl) hq
    (reads_arguments q.keyword _ s hl hus fun u hu => ht u (by simp [hu])) hc

theorem Normal.leads {e : Expr} (h : e.Normal) : e.Leads := by
  induction h with
  | @number n => exact leads_leaf (k := .number n) rfl
  | @bool b => exact leads_leaf (k := .bool b) rfl
  | @text x => exact leads_leaf (k := .text x) rfl
  | @var x => exact leads_leaf (k := .name x) rfl
  | unary _ ho ih => exact leads_unary ih ho
  | binary _ _ hol hor ihl ihr => exact leads_binary ihl ihr hol hor
  | group _ ih => exact leads_group ih
  | call _ hc ih => exact leads_call ih hc

end Expr

end Easel
