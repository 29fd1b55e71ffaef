import Easel.Program.Compile
import Easel.Proofs.Grammar
import Easel.Proofs.Renumber

/-!
# Easel.Proofs.LineLocal

A newline cuts a text into two that are scanned and parsed each on its own: the second one as if it
stood alone, with its lines counted from where the first one ends (`Program.ofText_line_local`).

* `Token.munch_append_newLine`: no token reaches over a newline, so scanning the first text does not
  depend on the second (`Token.scanFrom_append_newLine`).
* `Laid.before_newLine`: no statement reaches over one either.
* `Program.parse_append_newLine`: behind a program and a newline, parsing starts anew.
-/

namespace Easel

/-! ## Scanning up to a newline -/

theorem takeWhile_append_newLine {p : Char → Bool} (hp : p '\n' = false) (cs bs : List Char) :
    (cs ++ '\n' :: bs).takeWhile p = cs.takeWhile p := by
  induction cs with
  | nil => simp [hp]
  | cons c cs ih => rw [List.cons_append, List.takeWhile_cons, List.takeWhile_cons, ih]

theorem prefix_append_newLine_iff {xs : List Char} (hx : '\n' ∉ xs) (cs bs : List Char) :
    xs <+: cs ++ '\n' :: bs ↔ xs <+: cs := by
  constructor
  · intro h
    rcases Nat.lt_or_ge cs.length xs.length with hlt | hle
    · -- a longer prefix would have the newline in it
      obtain ⟨zs, rfl⟩ :=
        List.prefix_of_prefix_length_le (List.prefix_append cs _) h (Nat.le_of_lt hlt)
      obtain ⟨ys, hys⟩ := h
      rw [List.append_assoc, List.append_cancel_left_eq] at hys
      cases zs with
      | nil => simp at hlt
      | cons z zs =>
        obtain ⟨rfl, _⟩ := List.cons.inj hys
        exact absurd (by simp) hx
    · exact List.prefix_of_prefix_length_le h (List.prefix_append cs _) hle
  · exact fun h => h.trans (List.prefix_append cs _)

/-- A newline stands in no symbol but its own. -/
theorem isPrefixOf_append_newLine {s : List Char × TokenKind} (hs : s ∈ TokenKind.symbols)
    (c : Char) (cs bs : List Char) :
    s.1.isPrefixOf (c :: (cs ++ '\n' :: bs)) = s.1.isPrefixOf (c :: cs) := by
  have htail : ∀ s ∈ TokenKind.symbols, '\n' ∉ s.1.tail := by decide
  have hne := symbols_ne_nil s hs
  obtain ⟨xs, k⟩ := s
  cases xs with
  | nil => exact absurd rfl hne
  | cons x xs =>
    have hn : '\n' ∉ xs := htail _ hs
    rw [Bool.eq_iff_iff, List.isPrefixOf_iff_prefix, List.isPrefixOf_iff_prefix,
      List.cons_prefix_cons, List.cons_prefix_cons, prefix_append_newLine_iff hn]

namespace Token

/-- Whether a quoted text is closed does not depend on what stands behind a newline. -/
theorem getElem?_takeWhile_append_newLine (cs bs : List Char) :
    (cs ++ '\n' :: bs)[(cs.takeWhile isQuotable).length]? = some '"' ↔
      cs[(cs.takeWhile isQuotable).length]? = some '"' := by
  have hle : (cs.takeWhile isQuotable).length ≤ cs.length := (List.takeWhile_prefix _).length_le
  rcases Nat.lt_or_eq_of_le hle with hlt | heq
  · rw [List.getElem?_append_left hlt]
  · rw [heq]
    simp

theorem munch_append_newLine (c : Char) (cs bs : List Char) :
    munch c (cs ++ '\n' :: bs) = munch c cs := by
  have hfind : (TokenKind.symbols.find? fun s => s.1.isPrefixOf (c :: (cs ++ '\n' :: bs))) =
      TokenKind.symbols.find? fun s => s.1.isPrefixOf (c :: cs) := by
    rw [← List.head?_filter, ← List.head?_filter]
    exact congrArg _ (List.filter_congr fun s hs => isPrefixOf_append_newLine hs c cs bs)
  have hdigits := takeWhile_append_newLine (p := Char.isDigit) rfl cs bs
  have hword := takeWhile_append_newLine (p := isWordChar) rfl cs bs
  have hbody := takeWhile_append_newLine (p := isQuotable) rfl cs bs
  simp only [munch, hdigits, hword, hbody, getElem?_takeWhile_append_newLine, hfind]

theorem length_of_munch {c : Char} {cs : List Char} {k : TokenKind} {n : Nat}
    (h : munch c cs = .ok (k, n)) : n ≤ cs.length := by
  obtain ⟨_, rfl, _⟩ | ⟨_, _, rfl, _⟩ | ⟨_, _, _, rfl, hq, _⟩ | ⟨_, _, _, spelling, hf, rfl⟩ :=
    munch_cases h
  · exact (List.takeWhile_prefix _).length_le
  · exact (List.takeWhile_prefix _).length_le
  · exact (List.getElem?_eq_some_iff.mp hq).1
  · have hpre : spelling <+: c :: cs := by simpa using List.find?_some hf
    have hle := hpre.length_le
    rw [List.length_cons] at hle
    omega

/-- Lines are counted from the line on which the text starts. -/
theorem scanFrom_add (n : Nat) (cs : List Char) :
    ∀ line taken, scanFrom (line + n) taken cs =
      ((scanFrom line taken cs).map (List.map (renumber (· + n)))).mapError
        (Diagnostic.renumber (· + n)) := by
  induction cs with
  | nil => intro line taken; rfl
  | cons c cs ih =>
    intro line taken
    cases taken with
    | succ k => exact ih line k
    | zero =>
      simp only [scanFrom]
      split
      · exact ih line 0
      · split
        · rfl
        · rename_i k len _
          have hafter : lineAfter k (line + n) = lineAfter k line + n := by
            unfold lineAfter
            split <;> omega
          rw [hafter, ih]
          cases scanFrom (lineAfter k line) len cs <;> rfl

theorem ne_nil_of_scanFrom {line taken : Nat} {cs : List Char} {ts : List Token}
    (h : scanFrom line taken cs = .ok ts) : ts ≠ [] := by
  obtain ⟨body, _, rfl, _⟩ := scanned_of_scanFrom h
  simp

theorem scanFrom_newLine (line : Nat) (bs : List Char) :
    scanFrom line 0 ('\n' :: bs) =
      (scanFrom (line + 1) 0 bs).map (⟨.newLine, "\n", line⟩ :: ·) := by
  have hm : munch '\n' bs = .ok (.newLine, 0) := rfl
  have hl : lineAfter .newLine line = line + 1 := rfl
  rw [scanFrom_cons (by decide), hm]
  simp only [hl, List.drop_zero]
  cases scanFrom (line + 1) 0 bs <;> rfl

/-- Behind the tokens of the first text the newline takes the place of the end mark, and then the
second text is scanned. -/
theorem scanFrom_append_newLine (cs bs : List Char) :
    ∀ line, scanFrom line 0 (cs ++ '\n' :: bs) =
      (scanFrom line 0 cs).bind fun ts =>
        (scanFrom (line + cs.count '\n' + 1) 0 bs).map
          (ts.dropLast ++ ⟨.newLine, "\n", line + cs.count '\n'⟩ :: ·) := by
  -- one token is cut off at a time, and what is left gets shorter
  induction hlen : cs.length using Nat.strongRecOn generalizing cs with
  | _ len ih =>
    intro line
    subst hlen
    cases cs with
    | nil => exact scanFrom_newLine line bs
    | cons c cs =>
      by_cases hb : isBlank c = true
      · have hc : c ≠ '\n' := by
          rintro rfl
          cases hb
        have hcs := ih cs.length (by simp) cs rfl line
        rw [List.cons_append, scanFrom, scanFrom, if_pos hb, if_pos hb, hcs,
          List.count_cons_of_ne hc]
      · rw [List.cons_append, scanFrom_cons hb, scanFrom_cons hb, munch_append_newLine]
        cases hm : munch c cs with
        | error f => rfl
        | ok m =>
          obtain ⟨k, n⟩ := m
          have hle := length_of_munch hm
          have hlt : (cs.drop n).length < (c :: cs).length := by
            rw [List.length_drop, List.length_cons]
            omega
          have hline : lineAfter k line + (cs.drop n).count '\n' = line + (c :: cs).count '\n' := by
            rw [lineAfter_eq (spells_of_munch hm), Nat.add_assoc, ← List.count_append,
              List.cons_append, List.take_append_drop]
          simp only [List.drop_append_of_le_length hle, List.take_append_of_le_length hle,
            ih _ hlt (cs.drop n) rfl, hline]
          cases hs : scanFrom (lineAfter k line) 0 (cs.drop n) with
          | error d => rfl
          | ok ts =>
            have hne := ne_nil_of_scanFrom hs
            simp only [Except.bind, List.dropLast_cons_of_ne_nil hne]
            cases scanFrom (line + (c :: cs).count '\n' + 1) 0 bs <;> rfl

/-- The second text is scanned as if it stood alone, and its lines are counted on. -/
theorem scan_append_newLine (a b : String) :
    scan (a ++ "\n" ++ b) =
      (scan a).bind fun ts =>
        ((scan b).map fun us => ts.dropLast ++ ⟨.newLine, "\n", 1 + a.toList.count '\n'⟩ ::
          us.map (renumber (· + (1 + a.toList.count '\n')))).mapError
            (Diagnostic.renumber (· + (1 + a.toList.count '\n'))) := by
  have htext : (a ++ "\n" ++ b).toList = a.toList ++ '\n' :: b.toList := by simp
  have hline : 1 + a.toList.count '\n' + 1 = 1 + (1 + a.toList.count '\n') := by omega
  rw [scan, htext, scanFrom_append_newLine, hline, scanFrom_add, scan, scan]
  cases scanFrom 1 0 a.toList with
  | error d => rfl
  | ok ts => cases scanFrom 1 0 b.toList <;> rfl

end Token

/-! ## Statements before a newline -/

namespace Expr

theorem newLine_not_mem_yieldList {es : List Expr} (h : ∀ e ∈ es, .newLine ∉ e.yield) :
    .newLine ∉ yieldList es := by
  induction es with
  | nil => simp [yieldList]
  | cons e es ih =>
    have he := h e (by simp)
    have hes := ih fun e' he' => h e' (by simp [he'])
    cases es with
    | nil => exact he
    | cons e' es =>
      rw [yieldList]
      simp [he, hes]

theorem newLine_not_mem_yield (e : Expr) : .newLine ∉ e.yield := by
  induction e using Expr.induct with
  | number | bool | text | var => simp [yield]
  | unary op e ih => cases op <;> simp [yield, UnaryOp.kind, ih]
  | binary l op r ihl ihr => simp [yield, ihl, ihr]
  | group e ih => simp [yield, ih]
  | call q args ih => simp [yield, newLine_not_mem_yieldList ih]

end Expr

theorem Action.newLine_not_mem_yield (a : Action) : .newLine ∉ a.yield := by
  cases a with
  | assign x ty e => simp [yield, e.newLine_not_mem_yield]
  | command c args =>
    simp [yield, Expr.newLine_not_mem_yieldList fun e _ => e.newLine_not_mem_yield]
  | label l => simp [yield]
  | goTo l e => simp [yield, e.newLine_not_mem_yield]
  | discard e => exact e.newLine_not_mem_yield

theorem Stmt.Covers.ne_newLine {st : Stmt} {ts : List Token} (h : st.Covers ts) :
    ∀ t ∈ ts, t.kind ≠ .newLine := by
  intro t ht hk
  have hmem : t.kind ∈ ts.map Token.kind := List.mem_map_of_mem ht
  rw [h.tokens, hk] at hmem
  exact st.action.newLine_not_mem_yield hmem

/-- The tokens before a newline are those of a program, because every statement ends before or
behind it. -/
theorem Laid.before_newLine {p : Program} {ts : List Token} (h : Laid p ts) :
    ∀ {xs ys : List Token} {b : Token}, ts = xs ++ b :: ys → b.kind = .newLine →
      ∃ p', Laid p' xs := by
  induction h with
  | @blank bs hb =>
    rintro xs ys b rfl _
    exact ⟨[], .blank fun t ht => hb t (by simp [ht])⟩
  | @last bs ts st hb hcov =>
    intro xs ys b heq hk
    obtain ⟨zs, rfl, hts⟩ | ⟨zs, rfl, _⟩ := List.append_eq_append_iff.mp heq
    · exact absurd hk (hcov.ne_newLine b (by simp [hts]))
    · exact ⟨[], .blank fun t ht => hb t (by simp [ht])⟩
  | @line bs ts rest b' st p hb hcov hb' _ ih =>
    intro xs ys b heq hk
    -- the newline is one of the blank lines, the end of the statement, or one further on
    obtain ⟨zs, rfl, hts⟩ | ⟨zs, rfl, _⟩ := List.append_eq_append_iff.mp heq
    · obtain ⟨ws, rfl, hrest⟩ | ⟨ws, rfl, hws⟩ := List.append_eq_append_iff.mp hts
      · rcases List.cons_eq_append_iff.mp hrest with ⟨rfl, _⟩ | ⟨ws, rfl, hws⟩
        · rw [List.append_nil]
          exact ⟨[st], .last hb hcov⟩
        · obtain ⟨p', hp'⟩ := ih hws hk
          exact ⟨st :: p', by simpa using Laid.line hb hcov hb' hp'⟩
      · rcases List.cons_eq_append_iff.mp hws with ⟨rfl, _⟩ | ⟨ws, rfl, _⟩
        · rw [List.append_nil] at hcov
          exact ⟨[st], .last hb hcov⟩
        · exact absurd hk (hcov.ne_newLine b (by simp))
    · exact ⟨[], .blank fun t ht => hb t (by simp [ht])⟩

/-! ## Parsing behind a newline -/

namespace Parser

variable {α β : Type}

theorem result_map (g : α → β) (p : Parser α) (s : Stream) :
    result ((g <$> p) s) = (result (p s)).map g := by
  show result (EStateM.map g p s) = _
  unfold EStateM.map
  cases p s <;> rfl

theorem result_renumber (f : Nat → Nat) (g : α → β) (r : EStateM.Result Diagnostic Stream α) :
    result (renumberResult f g r) = ((result r).map g).mapError (Diagnostic.renumber f) := by
  cases r <;> rfl

end Parser

namespace Program

theorem spelled_append_newLine {body us : List Token} (hbody : ∀ t ∈ body, t.Spelled)
    (hus : ∀ t ∈ us, t.Spelled) (m : Nat) :
    ∀ t ∈ body ++ ⟨.newLine, "\n", m⟩ :: us, t.Spelled := by
  have hsymbol : ("\n".toList, TokenKind.newLine) ∈ TokenKind.symbols := by decide
  intro t ht
  rcases List.mem_append.mp ht with ht | ht
  · exact hbody t ht
  · rcases List.mem_cons.mp ht with rfl | ht
    · exact .symbol hsymbol
    · exact hus t ht

/-- A program is read off the tokens before the newline, and then parsing starts anew. -/
theorem parse_append_newLine {body us : List Token} {p : Program} (hbody : ∀ t ∈ body, t.Spelled)
    (hus : ∀ t ∈ us, t.Spelled) (hp : Laid p body) (m line : Nat) :
    parse (body ++ ⟨.newLine, "\n", m⟩ :: (us ++ [⟨.endOfInput, "", line⟩])) =
      (parse (us ++ [⟨.endOfInput, "", line⟩])).map (p ++ ·) := by
  let s : Stream := ⟨⟨.newLine, "\n", m⟩ :: us, "", line⟩
  let len := (body ++ s.rest).length
  have hall : ∀ t ∈ body ++ s.rest, t.Spelled := spelled_append_newLine hbody hus m
  have hlt : body.length + s.rest.length < len + 1 := by simp [len]
  have hskip : Parser.stmts (len + 1) s = Parser.stmts (us.length + 1) s.advance := by
    rw [← Parser.stmts_advance len (s := s) rfl]
    exact Parser.stmts_fuel _ (by simp [s, len, Stream.advance]; omega) (Nat.lt_succ_self _)
  have hstmts : Parser.stmts (len + 1) ⟨body ++ s.rest, "", line⟩ =
      ((p ++ ·) <$> Parser.stmts (us.length + 1)) ⟨us, "", line⟩ :=
    calc Parser.stmts (len + 1) (s.prepend body)
        = ((p ++ ·) <$> Parser.stmts (len + 1)) s := hp.stmts_eq hbody _ (.inr rfl) hlt
      _ = ((p ++ ·) <$> Parser.stmts (us.length + 1)) s.advance := Parser.map_congr_at hskip _
  rw [← List.cons_append, ← List.append_assoc, parse_eq hall, parse_eq hus, hstmts,
    Parser.result_map]

theorem laid_of_parse_append_newLine {body us : List Token} {p : Program} {m line : Nat}
    (hbody : ∀ t ∈ body, t.Spelled) (hus : ∀ t ∈ us, t.Spelled)
    (h : parse (body ++ ⟨.newLine, "\n", m⟩ :: (us ++ [⟨.endOfInput, "", line⟩])) = .ok p) :
    ∃ p', Laid p' body := by
  rw [← List.cons_append, ← List.append_assoc,
    parse_eq_ok_iff_laid (spelled_append_newLine hbody hus m)] at h
  exact h.before_newLine rfl rfl

theorem spelled_renumber {us : List Token} {f : Nat → Nat} (hus : ∀ t ∈ us, t.Spelled) :
    ∀ t ∈ us.map (Token.renumber f), t.Spelled := by
  intro t ht
  obtain ⟨u, hu, rfl⟩ := List.mem_map.mp ht
  exact hus u hu

theorem parse_renumber {f : Nat → Nat} {ts : List Token} (hf : ts = [] → f 1 = 1) :
    parse (ts.map (Token.renumber f)) =
      ((parse ts).map (renumber f)).mapError (Diagnostic.renumber f) := by
  rw [parse_eq_result, parse_eq_result, Stream.ofTokens_renumber hf,
    Parser.commutes_program.run, Parser.result_renumber]

/-! ## Texts -/

theorem ofText_of_scan {text : String} {ts : List Token} (h : Token.scan text = .ok ts) :
    ofText text = parse ts := by
  rw [ofText, h]
  rfl

theorem ofText_of_scan_error {text : String} {d : Diagnostic} (h : Token.scan text = .error d) :
    ofText text = .error d := by
  rw [ofText, h]
  rfl

theorem exists_scan_of_ofText {text : String} {p : Program} (h : ofText text = .ok p) :
    ∃ ts, Token.scan text = .ok ts ∧ parse ts = .ok p := by
  cases hs : Token.scan text with
  | error d =>
    rw [ofText_of_scan_error hs] at h
    cases h
  | ok ts => exact ⟨ts, rfl, by rw [← ofText_of_scan hs, h]⟩

variable {a b : String} {n : Nat}

theorem scan_lines {body us : List Token} {line line' : Nat}
    (ha : Token.scan a = .ok (body ++ [⟨.endOfInput, "", line⟩]))
    (hb : Token.scan b = .ok (us ++ [⟨.endOfInput, "", line'⟩]))
    (hn : n = 1 + a.toList.count '\n') :
    Token.scan (a ++ "\n" ++ b) =
      .ok (body ++ ⟨.newLine, "\n", n⟩ ::
        (us.map (Token.renumber (· + n)) ++ [⟨.endOfInput, "", line' + n⟩])) := by
  rw [Token.scan_append_newLine, ha, hb, ← hn]
  show Except.ok ((body ++ [_]).dropLast ++ _ :: (us ++ [_]).map _) = _
  rw [List.dropLast_concat, List.map_append]
  rfl

/-- If the first text is a program, the second one decides. -/
theorem ofText_append_newLine {p : Program} (hn : n = 1 + a.toList.count '\n')
    (h : ofText a = .ok p) :
    ofText (a ++ "\n" ++ b) =
      ((ofText b).map (p ++ renumber (· + n) ·)).mapError (Diagnostic.renumber (· + n)) := by
  obtain ⟨ts, hts, hp⟩ := exists_scan_of_ofText h
  obtain ⟨body, line, rfl, hbody⟩ := Token.scanned_of_scan hts
  have hlaid := (parse_eq_ok_iff_laid hbody line).mp hp
  cases hb : Token.scan b with
  | error d =>
    have hscan : Token.scan (a ++ "\n" ++ b) = .error (d.renumber (· + n)) := by
      rw [Token.scan_append_newLine, hts, hb, ← hn]
      rfl
    rw [ofText_of_scan_error hscan, ofText_of_scan_error hb]
    rfl
  | ok us =>
    obtain ⟨body', line', rfl, hbody'⟩ := Token.scanned_of_scan hb
    have hrenumber : parse (body'.map (Token.renumber (· + n)) ++ [⟨.endOfInput, "", line' + n⟩]) =
        ((parse (body' ++ [⟨.endOfInput, "", line'⟩])).map (renumber (· + n))).mapError
          (Diagnostic.renumber (· + n)) := by
      rw [← parse_renumber (by simp), List.map_append]
      rfl
    rw [ofText_of_scan (scan_lines hts hb hn), ofText_of_scan hb,
      parse_append_newLine hbody (spelled_renumber hbody') hlaid, hrenumber]
    cases parse (body' ++ [⟨.endOfInput, "", line'⟩]) <;> rfl

/-- Nothing behind a newline makes a program of what stands before it. -/
theorem exists_ofText_of_append_newLine {p : Program} (h : ofText (a ++ "\n" ++ b) = .ok p) :
    ∃ p', ofText a = .ok p' := by
  obtain ⟨ts, hts, hp⟩ := exists_scan_of_ofText h
  cases ha : Token.scan a with
  | error d =>
    rw [Token.scan_append_newLine, ha] at hts
    cases hts
  | ok xs =>
    cases hb : Token.scan b with
    | error d =>
      rw [Token.scan_append_newLine, ha, hb] at hts
      cases hts
    | ok us =>
      obtain ⟨body, line, rfl, hbody⟩ := Token.scanned_of_scan ha
      obtain ⟨body', line', rfl, hbody'⟩ := Token.scanned_of_scan hb
      rw [scan_lines ha hb rfl] at hts
      obtain rfl := Except.ok.inj hts
      obtain ⟨p', hp'⟩ := laid_of_parse_append_newLine hbody (spelled_renumber hbody') hp
      rw [ofText_of_scan ha]
      exact ⟨p', (parse_eq_ok_iff_laid hbody line).mpr hp'⟩

theorem getLast?_of_scan {ts : List Token} (h : Token.scan a = .ok ts) :
    ts.getLast? = some ⟨.endOfInput, "", 1 + a.toList.count '\n'⟩ := by
  obtain ⟨pieces, rest, _, rfl⟩ := Token.scanFrom_partition a.toList h
  rw [List.getLast?_concat]

/-- Of two texts with a newline between them each is scanned and parsed on its own. The second one
starts on the line `n + 1`, where `n` is the line that the first one ends on. -/
theorem ofText_line_local (a b : String) {n : Nat} (hn : n = 1 + a.toList.count '\n') :
    (Token.scan (a ++ "\n" ++ b) =
      match Token.scan a, Token.scan b with
      | .error d, _ => .error d
      | .ok _, .error d => .error (d.renumber (· + n))
      | .ok ts, .ok us =>
        .ok (ts.dropLast ++ ⟨.newLine, "\n", n⟩ :: us.map (Token.renumber (· + n)))) ∧
    (∀ ts, Token.scan a = .ok ts → ts.getLast? = some ⟨.endOfInput, "", n⟩) ∧
    (∀ p, ofText (a ++ "\n" ++ b) = .ok p ↔
      ∃ p₁ p₂, ofText a = .ok p₁ ∧ ofText b = .ok p₂ ∧ p = p₁ ++ p₂.renumber (· + n)) ∧
    (∀ p₁ d, ofText a = .ok p₁ → ofText b = .error d →
      ofText (a ++ "\n" ++ b) = .error (d.renumber (· + n))) := by
  refine ⟨?_, fun ts hts => hn ▸ getLast?_of_scan hts, ?_, ?_⟩
  · rw [Token.scan_append_newLine, ← hn]
    cases Token.scan a with
    | error d => rfl
    | ok ts => cases Token.scan b <;> rfl
  · intro p
    constructor
    · intro h
      obtain ⟨p₁, ha⟩ := exists_ofText_of_append_newLine h
      rw [ofText_append_newLine hn ha] at h
      cases hb : ofText b with
      | error d =>
        rw [hb] at h
        cases h
      | ok p₂ =>
        rw [hb] at h
        exact ⟨p₁, p₂, ha, rfl, (Except.ok.inj h).symm⟩
    · rintro ⟨p₁, p₂, ha, hb, rfl⟩
      rw [ofText_append_newLine hn ha, hb]
      rfl
  · intro p₁ d ha hb
    rw [ofText_append_newLine hn ha, hb]
    rfl

/-- A label is ended by the newline, a jump behind it goes on the third line, and an argument list
that is left open there is reported on the third line, too. -/
theorem ofText_line_local_behind_label :
    ofText ("x <- 1\nagain" ++ "\n" ++ "GoTo [again] (x < 2)") =
      .ok [⟨1, .assign "x" .number (.number 1)⟩, ⟨2, .label "again"⟩,
        ⟨3, .goTo "again" (.binary (.var "x") (.order .lt) (.number 2))⟩] ∧
    ofText ("x <- 1\nagain" ++ "\n" ++ "Size(") =
      .error ⟨3, .grammar (.unexpectedToken "an expression" "end of input")⟩ := by
  have hscan₁ : Token.scan "x <- 1\nagain" =
      .ok [⟨.name "x", "x", 1⟩, ⟨.arrow, "<-", 1⟩, ⟨.number 1, "1", 1⟩, ⟨.newLine, "\n", 1⟩,
        ⟨.name "again", "again", 2⟩, ⟨.endOfInput, "", 2⟩] := rfl
  have hscan₂ : Token.scan "GoTo [again] (x < 2)" =
      .ok [⟨.goTo, "GoTo", 1⟩, ⟨.openBracket, "[", 1⟩, ⟨.name "again", "again", 1⟩,
        ⟨.closeBracket, "]", 1⟩, ⟨.openParen, "(", 1⟩, ⟨.name "x", "x", 1⟩,
        ⟨.operator (.order .lt), "<", 1⟩, ⟨.number 2, "2", 1⟩, ⟨.closeParen, ")", 1⟩,
        ⟨.endOfInput, "", 1⟩] := rfl
  have hscan₃ : Token.scan "Size(" =
      .ok [⟨.command .size, "Size", 1⟩, ⟨.openParen, "(", 1⟩, ⟨.endOfInput, "", 1⟩] := rfl
  have ha : ofText "x <- 1\nagain" =
      .ok [⟨1, .assign "x" .number (.number 1)⟩, ⟨2, .label "again"⟩] :=
    (ofText_of_scan hscan₁).trans rfl
  have hb : ofText "GoTo [again] (x < 2)" =
      .ok [⟨1, .goTo "again" (.binary (.var "x") (.order .lt) (.number 2))⟩] :=
    (ofText_of_scan hscan₂).trans rfl
  have hd : ofText "Size(" =
      .error ⟨1, .grammar (.unexpectedToken "an expression" "end of input")⟩ :=
    (ofText_of_scan hscan₃).trans rfl
  have hn : 2 = 1 + "x <- 1\nagain".toList.count '\n' := by decide
  obtain ⟨_, _, hok, _⟩ := ofText_line_local "x <- 1\nagain" "GoTo [again] (x < 2)" hn
  obtain ⟨_, _, _, herror⟩ := ofText_line_local "x <- 1\nagain" "Size(" hn
  exact ⟨(hok _).mpr ⟨_, _, ha, hb, rfl⟩, herror _ _ ha hd⟩

end Program
end Easel
