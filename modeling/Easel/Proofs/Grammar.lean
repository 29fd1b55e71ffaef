import Easel.Proofs.Munch
import Easel.Proofs.Parsing
import Easel.Proofs.Statements

/-!
# Easel.Proofs.Grammar

Programs are parsed exactly: on tokens as a scan gives them, the parser finds a program if and only
if the tokens are those of its statements, with newlines between them and blank lines anywhere
(`Program.parse_exact`).

* `Stmt.Covers`: the tokens of one statement. `Parser.covers_of_stmt` and `Stmt.Covers.stmt_eq` are
  the two halves for the parser of statements; the second needs a newline or the end to follow.
* `Laid`: the tokens of a program. `Parser.laid_of_stmts` and `Laid.stmts_eq` are the two halves for
  the parser of programs; the second says what is read of the tokens behind, too.
-/

namespace Easel

/-! ## Commands by spelling and by kind -/

theorem Token.Spelled.command_iff {t : Token} (h : t.Spelled) (c : Command) :
    Command.ofKeyword? t.lexeme = some c ↔ t.kind = .command c := by
  have hword : (TokenKind.command c).reserved? = some c.keyword := rfl
  rw [Command.ofKeyword?_eq_some_iff, Spells.reserved_iff h hword, String.toList_inj]

theorem Stream.Spelled.command_iff {s : Stream} (h : s.Spelled) (c : Command) :
    Command.ofKeyword? s.current.lexeme = some c ↔ s.current.kind = .command c := by
  obtain ⟨rest, lexeme, line⟩ := s
  cases rest with
  | nil =>
    obtain ⟨rfl, _⟩ := h
    constructor
    · intro hc
      cases hc
    · intro hc
      cases hc
  | cons t ts => exact (h.2 t (by simp)).command_iff c

/-- A word of another kind is no keyword of a command or a query. -/
theorem Token.Spelled.ofKeyword?_eq_none {t : Token} (h : t.Spelled)
    (hc : ∀ c, t.kind ≠ .command c) (hq : ∀ q, t.kind ≠ .query q) :
    Command.ofKeyword? t.lexeme = none ∧ Query.ofKeyword? t.lexeme = none := by
  refine ⟨Option.eq_none_iff_forall_ne_some.mpr ?_, Option.eq_none_iff_forall_ne_some.mpr ?_⟩
  · exact fun c hs => hc c ((h.command_iff c).mp hs)
  · exact fun q hs => hq q ((h.query_iff q).mp hs)

/-! ## The tokens of a statement -/

namespace Action

/-- The tokens of a statement, in order. -/
def yield : Action → List TokenKind
  | .assign x _ e => .name x :: .arrow :: e.yield
  | .command c args => .command c :: .openParen :: (Expr.yieldList args ++ [.closeParen])
  | .label l => [.name l]
  | .goTo l e =>
    .goTo :: .openBracket :: .name l :: .closeBracket :: .openParen :: (e.yield ++ [.closeParen])
  | .discard e => e.yield

/-- The statement has passed every check, and it is one that its first token announces. -/
structure WellFormed (a : Action) : Prop where
  vetted : a.Vetted
  query : ∀ e, a = .discard e → ∃ q ks, e.yield = .query q :: ks

theorem yield_eq_cons (a : Action) : ∃ k ks, a.yield = k :: ks ∧ k ≠ .newLine := by
  cases a with
  | discard e =>
    obtain ⟨k, ks, h, _, hk, _⟩ := e.yield_eq_cons
    exact ⟨k, ks, h, hk⟩
  | _ => exact ⟨_, _, rfl, by simp⟩

end Action

/-- The tokens are those of the statement, and the first of them stands on its line. -/
structure Stmt.Covers (st : Stmt) (ts : List Token) : Prop where
  wellFormed : st.action.WellFormed
  tokens : ts.map Token.kind = st.action.yield
  line : ts.head?.map Token.line = some st.line

theorem Stmt.Covers.eq_cons {st : Stmt} {ts : List Token} (h : st.Covers ts) :
    ∃ t us, ts = t :: us ∧ t.kind ≠ .newLine ∧ t.line = st.line := by
  obtain ⟨k, ks, hy, hk⟩ := st.action.yield_eq_cons
  have htok := h.tokens
  rw [hy] at htok
  obtain ⟨t, us, rfl, rfl, _⟩ := List.map_eq_cons_iff.mp htok
  exact ⟨t, us, rfl, hk, Option.some.inj h.line⟩

/-! ## Reading a statement -/

namespace Parser

variable {s s' : Stream} {st : Stmt}

theorem covers_of_stmt (hs : s.Spelled) (h : stmt s = .ok st s') :
    ∃ ts, s = s'.prepend ts ∧ st.Covers ts := by
  have hv := vetted_of_stmt h
  obtain ⟨c, hc, h⟩ | ⟨_, ⟨⟨q, hq⟩, h⟩ | ⟨_, ⟨x, hx, _, h⟩ | ⟨l, hl, _, h⟩ | ⟨hg, h⟩⟩⟩ :=
    stmt_ok_iff.mp h
  · obtain ⟨args, ha, _, rfl⟩ := commandStmt_ok_iff.mp h
    obtain ⟨ts, hts, hy⟩ := ha.yields hs.advance
    have hk := (hs.command_iff c).mp hc
    refine ⟨_, Stream.eq_prepend_cons (by simp [hk]) hts, ⟨hv, by simp⟩, ?_, rfl⟩
    simp only [Goal.Yields, List.map_cons, Action.yield] at hy ⊢
    rw [hy, hk]
  · obtain ⟨e, ty, he, _, rfl⟩ := discardStmt_ok_iff.mp h
    obtain ⟨ts, rfl, hy⟩ := he.yields hs
    have hk := (hs.query_iff q).mp hq
    obtain ⟨t, us, rfl⟩ := List.exists_cons_of_ne_nil (ne_nil_of_yield hy)
    refine ⟨_, rfl, ⟨hv, ?_⟩, hy, rfl⟩
    rintro _ ⟨⟩
    refine ⟨q, us.map Token.kind, ?_⟩
    rw [← hy, List.map_cons, ← hk]
    rfl
  · obtain ⟨ha, e, ty, he, _, rfl⟩ := assignStmt_ok_iff.mp h
    obtain ⟨ts, hts, hy⟩ := he.yields hs.advance.advance
    refine ⟨_, Stream.eq_prepend_cons (by simp [hx]) (Stream.eq_prepend_cons (by simp [ha]) hts),
      ⟨hv, by simp⟩, ?_, rfl⟩
    simp only [Goal.Yields, List.map_cons, Action.yield] at hy ⊢
    rw [hy, hx, ha]
  · obtain ⟨rfl, rfl⟩ := labelStmt_ok_iff.mp h
    refine ⟨_, Stream.eq_prepend_current (by simp [hl]), ⟨hv, by simp⟩, ?_, rfl⟩
    simp [Action.yield, hl]
  · obtain ⟨l, e, m, h₁, h₂, h₃, h₄, he, h₅, _, rfl, rfl⟩ := goToStmt_ok_iff.mp h
    obtain ⟨ts, hts, hy⟩ := he.yields hs.advance.advance.advance.advance.advance
    rw [Stream.eq_prepend_current (s := m) (by simp [h₅]), ← Stream.prepend_append] at hts
    refine ⟨_, Stream.eq_prepend_cons (by simp [hg]) (Stream.eq_prepend_cons (by simp [h₁])
      (Stream.eq_prepend_cons (by simp [h₂]) (Stream.eq_prepend_cons (by simp [h₃])
        (Stream.eq_prepend_cons (by simp [h₄]) hts)))), ⟨hv, by simp⟩, ?_, rfl⟩
    simp only [Goal.Yields, List.map_cons, List.map_append, List.map_nil, Action.yield] at hy ⊢
    rw [hy, hg, h₁, h₂, h₃, h₄, h₅]

end Parser

/-- A statement may end here: at a newline or at the end of the input. -/
def Stream.AtBreak (s : Stream) : Prop := s.rest = [] ∨ s.current.kind = .newLine

namespace Stream.AtBreak

theorem current_kind {s : Stream} (h : s.AtBreak) :
    s.current.kind = .newLine ∨ s.current.kind = .endOfInput := by
  rcases h with h | h
  · exact .inr (by simp [current, h, mark])
  · exact .inl h

theorem stops {s : Stream} (h : s.AtBreak) : s.Stops 0 := by
  intro op hop
  rcases h.current_kind with hk | hk
  · rw [hk] at hop
    cases hop
  · rw [hk] at hop
    cases hop

end Stream.AtBreak

namespace Stmt.Covers

open Easel.Parser

variable {s : Stream} {ts : List Token} {line : Nat}

theorem command_eq {c : Command} {args : List Expr} (h : Covers ⟨line, .command c args⟩ ts)
    (hts : ∀ t ∈ ts, t.Spelled) : stmt (s.prepend ts) = .ok ⟨line, .command c args⟩ s := by
  obtain ⟨t, us, rfl, hk, hy⟩ := List.map_eq_cons_iff.mp h.tokens
  obtain ⟨rfl⟩ := Option.some.inj h.line
  cases h.wellFormed.vetted with
  | command hn hc =>
    refine stmt_ok_iff.mpr (.inl ⟨c, ((hts t (by simp)).command_iff c).mpr hk, ?_⟩)
    refine commandStmt_ok_iff.mpr ⟨args, ?_, hc, rfl⟩
    exact Expr.reads_arguments _ _ s (fun e he => (hn e he).leads) hy
      fun u hu => hts u (by simp [hu])

theorem discard_eq {e : Expr} (h : Covers ⟨line, .discard e⟩ ts) (hts : ∀ t ∈ ts, t.Spelled)
    (hs : s.AtBreak) : stmt (s.prepend ts) = .ok ⟨line, .discard e⟩ s := by
  obtain ⟨q, ks, hq⟩ := h.wellFormed.query e rfl
  have hy : ts.map Token.kind = e.yield := h.tokens
  obtain ⟨t, us, rfl, hk, _⟩ := List.map_eq_cons_iff.mp (hy.trans hq)
  obtain ⟨rfl⟩ := Option.some.inj h.line
  have ht : t.Spelled := hts t (by simp)
  have hc : Command.ofKeyword? t.lexeme = none := by
    refine Option.eq_none_iff_forall_ne_some.mpr fun c hc => ?_
    rw [(ht.command_iff c).mp hc] at hk
    cases hk
  cases h.wellFormed.vetted with
  | discard hn hty =>
    refine stmt_ok_iff.mpr (.inr ⟨hc, .inl ⟨⟨q, (ht.query_iff q).mpr hk⟩, ?_⟩⟩)
    exact discardStmt_ok_iff.mpr ⟨e, _, hn.leads.argument hy hts hs.stops, hty, rfl⟩

theorem assign_eq {x : String} {ty : Ty} {e : Expr} (h : Covers ⟨line, .assign x ty e⟩ ts)
    (hts : ∀ t ∈ ts, t.Spelled) (hs : s.AtBreak) :
    stmt (s.prepend ts) = .ok ⟨line, .assign x ty e⟩ s := by
  obtain ⟨t, us, rfl, hk, hy⟩ := List.map_eq_cons_iff.mp h.tokens
  obtain ⟨a, us, rfl, ha, hy⟩ := List.map_eq_cons_iff.mp hy
  obtain ⟨rfl⟩ := Option.some.inj h.line
  obtain ⟨hc, hq⟩ := (hts t (by simp)).ofKeyword?_eq_none (by simp [hk]) (by simp [hk])
  cases h.wellFormed.vetted with
  | assign hn hty =>
    refine stmt_ok_iff.mpr (.inr ⟨hc, .inr ⟨hq, .inl ⟨x, hk, ha, ?_⟩⟩⟩)
    refine assignStmt_ok_iff.mpr ⟨ha, e, ty, ?_, hty, rfl⟩
    exact hn.leads.argument hy (fun u hu => hts u (by simp [hu])) hs.stops

theorem label_eq {l : String} (h : Covers ⟨line, .label l⟩ ts) (hts : ∀ t ∈ ts, t.Spelled)
    (hs : s.AtBreak) : stmt (s.prepend ts) = .ok ⟨line, .label l⟩ s := by
  obtain ⟨t, rfl, hk⟩ := List.map_eq_singleton_iff.mp h.tokens
  obtain ⟨rfl⟩ := Option.some.inj h.line
  obtain ⟨hc, hq⟩ := (hts t (by simp)).ofKeyword?_eq_none (by simp [hk]) (by simp [hk])
  exact stmt_ok_iff.mpr (.inr ⟨hc, .inr ⟨hq, .inr (.inl ⟨l, hk, hs.current_kind, rfl⟩)⟩⟩)

theorem goTo_eq {l : String} {e : Expr} (h : Covers ⟨line, .goTo l e⟩ ts)
    (hts : ∀ t ∈ ts, t.Spelled) : stmt (s.prepend ts) = .ok ⟨line, .goTo l e⟩ s := by
  obtain ⟨t, us, rfl, hk, hy⟩ := List.map_eq_cons_iff.mp h.tokens
  obtain ⟨t₁, us, rfl, h₁, hy⟩ := List.map_eq_cons_iff.mp hy
  obtain ⟨t₂, us, rfl, h₂, hy⟩ := List.map_eq_cons_iff.mp hy
  obtain ⟨t₃, us, rfl, h₃, hy⟩ := List.map_eq_cons_iff.mp hy
  obtain ⟨t₄, us, rfl, h₄, hy⟩ := List.map_eq_cons_iff.mp hy
  obtain ⟨us, cs, rfl, hye, hcs⟩ := List.map_eq_append_iff.mp hy
  obtain ⟨t₅, rfl, h₅⟩ := List.map_eq_singleton_iff.mp hcs
  obtain ⟨rfl⟩ := Option.some.inj h.line
  obtain ⟨hc, hq⟩ := (hts t (by simp)).ofKeyword?_eq_none (by simp [hk]) (by simp [hk])
  cases h.wellFormed.vetted with
  | goTo hn hb =>
    have hr : Reads (.expr 0 e) ((s.prepend [t₅]).prepend us) (s.prepend [t₅]) :=
      hn.leads.argument hye (fun u hu => hts u (by simp [hu]))
        (Stream.stops_prepend (by rw [h₅]; rfl))
    rw [← Stream.prepend_append] at hr
    refine stmt_ok_iff.mpr (.inr ⟨hc, .inr ⟨hq, .inr (.inr ⟨hk, ?_⟩)⟩⟩)
    exact goToStmt_ok_iff.mpr ⟨l, e, s.prepend [t₅], h₁, h₂, h₃, h₄, hr, h₅, hb, rfl, rfl⟩

/-- A statement is read off its tokens, where it may end behind them. -/
theorem stmt_eq {st : Stmt} (h : st.Covers ts) (hts : ∀ t ∈ ts, t.Spelled) (hs : s.AtBreak) :
    stmt (s.prepend ts) = .ok st s := by
  obtain ⟨line, a⟩ := st
  cases a with
  | assign x ty e => exact h.assign_eq hts hs
  | command c args => exact h.command_eq hts
  | label l => exact h.label_eq hts hs
  | goTo l e => exact h.goTo_eq hts
  | discard e => exact h.discard_eq hts hs

end Stmt.Covers

/-! ## The tokens of a program -/

/-- Blank lines. -/
def Blank (bs : List Token) : Prop := ∀ t ∈ bs, t.kind = .newLine

/-- `Laid p ts`: the tokens `ts` are those of the statements of `p` in order, each ended by a
newline or by the end of the tokens, with blank lines anywhere between them. -/
inductive Laid : Program → List Token → Prop where
  | blank {bs : List Token} : Blank bs → Laid [] bs
  | last {bs ts : List Token} {st : Stmt} : Blank bs → st.Covers ts → Laid [st] (bs ++ ts)
  | line {bs ts rest : List Token} {b : Token} {st : Stmt} {p : Program} :
      Blank bs → st.Covers ts → b.kind = .newLine → Laid p rest →
      Laid (st :: p) (bs ++ (ts ++ b :: rest))

namespace Stream

/-- The stream behind the blank lines that come next. -/
def skipped (s : Stream) : Stream :=
  { s with rest := s.rest.dropWhile fun t => t.kind = .newLine }

theorem blank_takeWhile (ts : List Token) : Blank (ts.takeWhile fun t => t.kind = .newLine) := by
  intro t ht
  simpa using List.all_eq_true.mp List.all_takeWhile t ht

theorem skipped_prepend {bs : List Token} (hb : Blank bs) (s : Stream) :
    (s.prepend bs).skipped = s.skipped := by
  have hall : ∀ t ∈ bs, decide (t.kind = .newLine) = true := by
    simpa [Blank] using hb
  simp only [skipped, prepend, List.dropWhile_append_of_pos hall]

theorem skipped_eq_self {t : Token} (h : t.kind ≠ .newLine) (ts : List Token) (s : Stream) :
    (s.prepend (t :: ts)).skipped = s.prepend (t :: ts) := by
  simp [skipped, prepend, h]

theorem skipped_advance {s : Stream} (h : s.current.kind = .newLine) :
    s.advance.skipped = s.skipped := by
  have hb : Blank [s.current] := by simpa [Blank] using h
  calc s.advance.skipped = (s.advance.prepend [s.current]).skipped := (skipped_prepend hb _).symm
    _ = s.skipped := by rw [← eq_prepend_current (by simp [h])]

theorem length_skipped_le (s : Stream) : s.skipped.rest.length ≤ s.rest.length :=
  (List.dropWhile_suffix _).length_le

end Stream

namespace Parser

variable {s s' : Stream} {st : Stmt}

/-- A statement takes a token at least, whatever the tokens are. -/
theorem shrinks_of_stmt (h : stmt s = .ok st s') : s'.rest.length < s.rest.length := by
  have hle := s.length_advance_le
  obtain ⟨c, _, h⟩ | ⟨_, ⟨_, h⟩ | ⟨_, ⟨x, _, _, h⟩ | ⟨l, hk, _, h⟩ | ⟨_, h⟩⟩⟩ := stmt_ok_iff.mp h
  · obtain ⟨args, ha, _, rfl⟩ := commandStmt_ok_iff.mp h
    exact Nat.lt_of_lt_of_le ha.shrinks hle
  · obtain ⟨e, ty, he, _, rfl⟩ := discardStmt_ok_iff.mp h
    exact he.shrinks
  · obtain ⟨_, e, ty, he, _, rfl⟩ := assignStmt_ok_iff.mp h
    exact Nat.lt_of_lt_of_le he.shrinks (Nat.le_trans s.advance.length_advance_le hle)
  · obtain ⟨rfl, rfl⟩ := labelStmt_ok_iff.mp h
    exact Stream.length_advance_lt (by simp [hk])
  · obtain ⟨l, e, m, _, _, _, _, he, _, _, rfl, rfl⟩ := goToStmt_ok_iff.mp h
    have hlt : m.rest.length < s.advance.advance.advance.advance.advance.rest.length := he.shrinks
    simp only [Stream.length_advance] at hlt ⊢
    omega

theorem length_le_of_endOfStmt {u : Unit} (h : endOfStmt s = .ok u s') :
    s'.rest.length ≤ s.rest.length := by
  rcases endOfStmt_ok_iff.mp h with ⟨_, rfl⟩ | ⟨_, rfl⟩
  · exact Nat.le_refl _
  · exact s.length_advance_le

theorem endOfStmt_of_end (h : s.rest = []) : endOfStmt s = .ok () s :=
  endOfStmt_ok_iff.mpr (.inl ⟨h, rfl⟩)

theorem endOfStmt_of_newLine (h : s.current.kind = .newLine) : endOfStmt s = .ok () s.advance :=
  endOfStmt_ok_iff.mpr (.inr ⟨h, rfl⟩)

/-- What comes behind the blank lines. -/
def stmtsHere (fuel : Nat) : Parser Program := do
  if ← atEnd then return []
  else
    let st ← stmt
    endOfStmt
    let rest ← stmts fuel
    return st :: rest

theorem stmts_succ (fuel : Nat) (s : Stream) : stmts (fuel + 1) s = stmtsHere fuel s.skipped := rfl

theorem stmtsHere_of_end (fuel : Nat) (h : s.rest = []) : stmtsHere fuel s = .ok [] s := by
  rw [stmtsHere, bind_of_ok (atEnd_ok_iff.mpr ⟨rfl, rfl⟩), h]
  rfl

theorem stmtsHere_of_ne_nil (fuel : Nat) (h : s.rest ≠ []) :
    stmtsHere fuel s = (do
      let st ← stmt
      endOfStmt
      List.cons st <$> stmts fuel : Parser Program) s := by
  have he : s.rest.isEmpty = false := by simpa using h
  rw [stmtsHere, bind_of_ok (atEnd_ok_iff.mpr ⟨he, rfl⟩)]
  rfl

theorem stmts_of_end (fuel : Nat) (h : s.rest = []) : stmts fuel s = .ok [] s := by
  cases fuel with
  | zero => rfl
  | succ fuel =>
    obtain ⟨rest, lexeme, line⟩ := s
    subst h
    exact stmtsHere_of_end (s := ⟨[], lexeme, line⟩) fuel rfl

/-- A newline in front makes no difference. -/
theorem stmts_advance (fuel : Nat) (h : s.current.kind = .newLine) :
    stmts (fuel + 1) s.advance = stmts (fuel + 1) s := by
  rw [stmts_succ, stmts_succ, Stream.skipped_advance h]

/-- Blank lines and the tokens of a statement. -/
theorem stmts_of_covers (fuel : Nat) {bs ts : List Token} (hb : Blank bs) (hcov : st.Covers ts)
    (hts : ∀ t ∈ ts, t.Spelled) (hs : s.AtBreak) :
    stmts (fuel + 1) (s.prepend (bs ++ ts)) =
      (endOfStmt >>= fun _ => List.cons st <$> stmts fuel) s := by
  obtain ⟨t, us, rfl, hk, _⟩ := hcov.eq_cons
  rw [stmts_succ, Stream.prepend_append, Stream.skipped_prepend hb, Stream.skipped_eq_self hk,
    stmtsHere_of_ne_nil fuel (by simp [Stream.prepend]), bind_of_ok (hcov.stmt_eq hts hs)]

/-- Fuel beyond what the tokens need makes no difference, nor does it to a failure. -/
theorem stmts_fuel {fuel : Nat} :
    ∀ (fuel' : Nat) {s : Stream}, s.rest.length < fuel → s.rest.length < fuel' →
      stmts fuel s = stmts fuel' s := by
  induction fuel with
  | zero => intro fuel' s h; omega
  | succ fuel ih =>
    intro fuel' s h h'
    obtain ⟨fuel', rfl⟩ : ∃ k, fuel' = k + 1 := ⟨fuel' - 1, by omega⟩
    have hle := s.length_skipped_le
    rw [stmts_succ, stmts_succ]
    by_cases he : s.skipped.rest = []
    · rw [stmtsHere_of_end fuel he, stmtsHere_of_end fuel' he]
    · rw [stmtsHere_of_ne_nil fuel he, stmtsHere_of_ne_nil fuel' he]
      cases hst : stmt s.skipped with
      | error d m => rw [bind_of_error hst, bind_of_error hst]
      | ok st m =>
        have hlt := shrinks_of_stmt hst
        rw [bind_of_ok hst, bind_of_ok hst]
        cases hend : endOfStmt m with
        | error d m' => rw [bind_of_error hend, bind_of_error hend]
        | ok u m' =>
          have hle' := length_le_of_endOfStmt hend
          rw [bind_of_ok hend, bind_of_ok hend]
          exact map_congr_at (ih fuel' (by omega) (by omega)) _

/-- The tokens that are read to their end are those of the program that is found. -/
theorem laid_of_stmts {fuel : Nat} :
    ∀ {s s' : Stream} {p : Program}, s.Spelled → s.rest.length < fuel →
      stmts fuel s = .ok p s' → Laid p s.rest := by
  induction fuel with
  | zero => intro s s' p _ hlt; omega
  | succ fuel ih =>
    intro s s' p hs hlt h
    have hblank := Stream.blank_takeWhile s.rest
    have hsplit : s.rest = s.rest.takeWhile (fun t => t.kind = .newLine) ++ s.skipped.rest :=
      List.takeWhile_append_dropWhile.symm
    obtain ⟨m, rfl, ⟨he, rfl, _⟩ | ⟨_, st, p', m₁, m₂, hst, hend, hp, rfl⟩⟩ := stmts_ok_iff.mp h
    · rw [hsplit, Stream.skipped, he, List.append_nil]
      exact .blank hblank
    · have hms : s.skipped.Spelled := ⟨hs.1, fun t ht => hs.2 t (by rw [hsplit]; simp [ht])⟩
      obtain ⟨ts, hts, hcov⟩ := covers_of_stmt hms hst
      have hlen := s.length_skipped_le
      have hshrink : m₁.rest.length < s.skipped.rest.length := shrinks_of_stmt hst
      have hrest : s.skipped.rest = ts ++ m₁.rest := by rw [hts]; rfl
      have hm₁ : m₁.Spelled := Stream.Spelled.of_prepend (hts ▸ hms)
      rw [hsplit, hrest]
      rcases hend with ⟨he, rfl⟩ | ⟨hk, rfl⟩
      · rw [stmts_of_end fuel he] at hp
        cases hp
        rw [he, List.append_nil]
        exact .last hblank hcov
      · obtain ⟨us, hus, hadv⟩ := Stream.exists_cons (s := m₁) (by simp [hk])
        have hle := m₁.length_advance_le
        have hlaid := ih hm₁.advance (by omega) hp
        rw [hadv] at hlaid
        rw [hus]
        exact .line hblank hcov hk hlaid

end Parser

/-- A program is read off its tokens, and then whatever comes behind them is read. -/
theorem Laid.stmts_eq {p : Program} {ts : List Token} (h : Laid p ts) :
    (∀ t ∈ ts, t.Spelled) → ∀ {s : Stream} (fuel : Nat), s.AtBreak →
      ts.length + s.rest.length < fuel →
      Parser.stmts fuel (s.prepend ts) = ((p ++ ·) <$> Parser.stmts fuel) s := by
  induction h with
  | @blank bs hb =>
    intro _ s fuel _ hlt
    obtain ⟨k, rfl⟩ : ∃ k, fuel = k + 1 := ⟨fuel - 1, by omega⟩
    rw [Parser.stmts_succ, Stream.skipped_prepend hb, ← Parser.stmts_succ]
    show _ = (id <$> Parser.stmts (k + 1)) s
    rw [id_map]
  | @last bs ts st hb hcov =>
    intro hts s fuel hs hlt
    obtain ⟨k, rfl⟩ : ∃ k, fuel = k + 1 := ⟨fuel - 1, by omega⟩
    obtain ⟨t, us, rfl, _⟩ := hcov.eq_cons
    simp only [List.length_append, List.length_cons] at hlt
    rw [Parser.stmts_of_covers k hb hcov (fun t ht => hts t (by simp [ht])) hs]
    rcases hs with he | hk
    · rw [Parser.bind_of_ok (Parser.endOfStmt_of_end he)]
      exact Parser.map_congr_at (Parser.stmts_fuel _ (by omega) (by omega)) _
    · rw [Parser.bind_of_ok (Parser.endOfStmt_of_newLine hk)]
      have hle := s.length_advance_le
      refine Parser.map_congr_at ?_ _
      calc Parser.stmts k s.advance
          = Parser.stmts (k + 1) s.advance := Parser.stmts_fuel _ (by omega) (by omega)
        _ = Parser.stmts (k + 1) s := Parser.stmts_advance k hk
  | @line bs ts rest b st p hb hcov hk _ ih =>
    intro hts s fuel hs hlt
    obtain ⟨k, rfl⟩ : ∃ k, fuel = k + 1 := ⟨fuel - 1, by omega⟩
    simp only [List.length_append, List.length_cons] at hlt
    have hbreak : (s.prepend (b :: rest)).AtBreak := .inr hk
    have hrest := ih (fun t ht => hts t (by simp [ht])) k hs (by omega)
    rw [← List.append_assoc, Stream.prepend_append,
      Parser.stmts_of_covers k hb hcov (fun t ht => hts t (by simp [ht])) hbreak,
      Parser.bind_of_ok (Parser.endOfStmt_of_newLine (s := s.prepend (b :: rest)) hk)]
    calc (List.cons st <$> Parser.stmts k) (s.prepend rest)
        = (List.cons st <$> (p ++ ·) <$> Parser.stmts k) s := Parser.map_congr_at hrest _
      _ = ((st :: p ++ ·) <$> Parser.stmts k) s := by rw [Functor.map_map]; rfl
      _ = ((st :: p ++ ·) <$> Parser.stmts (k + 1)) s :=
        Parser.map_congr_at (Parser.stmts_fuel _ (by omega) (by omega)) _

/-! ## Parsing -/

/-- What a parser found, wherever it stopped. -/
def Parser.result {α : Type} : EStateM.Result Diagnostic Stream α → Except Diagnostic α
  | .ok a _ => .ok a
  | .error d _ => .error d

theorem Parser.result_eq_ok_iff {α : Type} {r : EStateM.Result Diagnostic Stream α} {a : α} :
    result r = .ok a ↔ ∃ s, r = .ok a s := by
  cases r <;> simp [result]

namespace Program

/-- The parser, before its place is forgotten. -/
theorem parse_eq_result (ts : List Token) :
    parse ts = Parser.result (Parser.program (.ofTokens ts)) := by
  unfold parse Parser.run EStateM.run
  cases Parser.program (.ofTokens ts) <;> rfl

theorem parse_eq {body : List Token} (hb : ∀ t ∈ body, t.Spelled) (line : Nat) :
    parse (body ++ [⟨.endOfInput, "", line⟩]) =
      Parser.result (Parser.stmts (body.length + 1) ⟨body, "", line⟩) := by
  rw [parse_eq_result, Stream.ofTokens_append_mark hb]
  rfl

/-- Parsing in terms of the tokens alone. -/
theorem parse_eq_ok_iff_laid {body : List Token} (hb : ∀ t ∈ body, t.Spelled) (line : Nat)
    {p : Program} : parse (body ++ [⟨.endOfInput, "", line⟩]) = .ok p ↔ Laid p body := by
  rw [parse_eq hb, Parser.result_eq_ok_iff]
  constructor
  · rintro ⟨s', h⟩
    exact Parser.laid_of_stmts ⟨rfl, hb⟩ (Nat.lt_succ_self _) h
  · intro hlaid
    let last : Stream := ⟨[], "", line⟩
    have h := hlaid.stmts_eq hb (s := last) (body.length + 1) (.inl rfl) (by simp [last])
    have hnil : Parser.stmts (body.length + 1) last = (pure [] : Parser Program) last :=
      Parser.stmts_of_end _ rfl
    rw [Parser.map_congr_at hnil] at h
    simp only [Stream.prepend, last, List.append_nil, map_pure] at h
    exact ⟨_, h⟩

/-- The tokens of a text are those of at most one program, and the parser finds it. -/
theorem parse_exact {ts : List Token} (hts : Scanned ts) (p : Program) :
    parse ts = .ok p ↔
      ∃ (body : List Token) (line : Nat), ts = body ++ [⟨.endOfInput, "", line⟩] ∧ Laid p body := by
  obtain ⟨body, line, rfl, hb⟩ := hts
  rw [parse_eq_ok_iff_laid hb]
  constructor
  · intro h
    exact ⟨body, line, rfl, h⟩
  · rintro ⟨body', line', heq, h⟩
    obtain ⟨rfl, _⟩ := List.append_inj' heq rfl
    exact h

/-- Blank lines at both ends and between, and a statement of every kind. -/
theorem parse_exact_every_kind :
    ∃ (ts body : List Token) (line : Nat) (p : Program),
      Token.scan "\nagain\nx <- 1\n\nSize(x)\nGoTo [again] (x < 2)\nGetActualX()\n" = .ok ts ∧
      Scanned ts ∧ ts = body ++ [⟨.endOfInput, "", line⟩] ∧
      p = [⟨2, .label "again"⟩, ⟨3, .assign "x" .number (.number 1)⟩,
        ⟨5, .command .size [.var "x"]⟩,
        ⟨6, .goTo "again" (.binary (.var "x") (.order .lt) (.number 2))⟩,
        ⟨7, .discard (.call .actualX [])⟩] ∧
      Laid p body := by
  obtain ⟨ts, hscan, hp⟩ :
      ∃ ts, Token.scan "\nagain\nx <- 1\n\nSize(x)\nGoTo [again] (x < 2)\nGetActualX()\n" = .ok ts ∧
        parse ts = .ok [⟨2, .label "again"⟩, ⟨3, .assign "x" .number (.number 1)⟩,
          ⟨5, .command .size [.var "x"]⟩,
          ⟨6, .goTo "again" (.binary (.var "x") (.order .lt) (.number 2))⟩,
          ⟨7, .discard (.call .actualX [])⟩] :=
    ⟨[⟨.newLine, "\n", 1⟩, ⟨.name "again", "again", 2⟩, ⟨.newLine, "\n", 2⟩,
      ⟨.name "x", "x", 3⟩, ⟨.arrow, "<-", 3⟩, ⟨.number 1, "1", 3⟩, ⟨.newLine, "\n", 3⟩,
      ⟨.newLine, "\n", 4⟩,
      ⟨.command .size, "Size", 5⟩, ⟨.openParen, "(", 5⟩, ⟨.name "x", "x", 5⟩,
      ⟨.closeParen, ")", 5⟩, ⟨.newLine, "\n", 5⟩,
      ⟨.goTo, "GoTo", 6⟩, ⟨.openBracket, "[", 6⟩, ⟨.name "again", "again", 6⟩,
      ⟨.closeBracket, "]", 6⟩, ⟨.openParen, "(", 6⟩, ⟨.name "x", "x", 6⟩,
      ⟨.operator (.order .lt), "<", 6⟩, ⟨.number 2, "2", 6⟩, ⟨.closeParen, ")", 6⟩,
      ⟨.newLine, "\n", 6⟩,
      ⟨.query .actualX, "GetActualX", 7⟩, ⟨.openParen, "(", 7⟩, ⟨.closeParen, ")", 7⟩,
      ⟨.newLine, "\n", 7⟩, ⟨.endOfInput, "", 8⟩], rfl, rfl⟩
  have hts : Scanned ts := Token.scanned_of_scan hscan
  obtain ⟨body, line, heq, hlaid⟩ := (parse_exact hts _).mp hp
  exact ⟨ts, body, line, _, hscan, hts, heq, rfl, hlaid⟩

end Program

end Easel
