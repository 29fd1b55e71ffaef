import Easel.Proofs.Fuel
import Easel.Proofs.Precedence

/-!
# Easel.Proofs.Parsing

Expressions are parsed exactly: on tokens as a scan gives them, the parser finds an expression and
stops at a place if and only if the expression is normal, the tokens up to that place are those of
the expression, and no operator stands there (`expr_exact`). So there is one such expression at
most, and no token is lost, doubled or grouped otherwise.
-/

namespace Easel

namespace Stream

/-- The stream of a list of tokens from place `i` on. -/
def seek (ts : List Token) (i : Nat) : Stream :=
  { ofTokens ts with rest := (ofTokens ts).rest.drop i }

theorem stops_zero_iff {s : Stream} : s.Stops 0 ↔ s.current.kind.binaryOp? = none := by
  rw [Option.eq_none_iff_forall_ne_some]
  constructor
  · intro h op hop
    exact absurd (h op (TokenKind.binaryOp?_eq_some_iff.mp hop)) (Nat.not_lt_zero _)
  · intro h op hk
    exact absurd (TokenKind.binaryOp?_eq_some_iff.mpr hk) (h op)

end Stream

/-- The tokens before the end mark are those that can be taken. -/
theorem Stream.ofTokens_append_mark {body : List Token} (hb : ∀ t ∈ body, t.Spelled) (line : Nat) :
    ofTokens (body ++ [⟨.endOfInput, "", line⟩]) = ⟨body, "", line⟩ := by
  have hne : ∀ t ∈ body, t.kind ≠ .endOfInput := fun t ht => (hb t ht).ne_endOfInput
  have hfind : body.find? (fun t => t.kind = .endOfInput) = none := by
    simpa using hne
  simp only [ofTokens]
  rw [List.takeWhile_append_of_pos (by simpa using hne), List.find?_append, hfind]
  simp

theorem Scanned.ofTokens_eq {ts : List Token} (h : Scanned ts) :
    ∃ (body : List Token) (line : Nat),
      ts = body ++ [⟨.endOfInput, "", line⟩] ∧ Stream.ofTokens ts = ⟨body, "", line⟩ ∧
        ∀ t ∈ body, t.Spelled := by
  obtain ⟨body, line, rfl, hb⟩ := h
  exact ⟨body, line, rfl, Stream.ofTokens_append_mark hb line, hb⟩

/-- On spelled tokens a reading is a normal expression with its tokens. -/
theorem reads_expr_iff {s s' : Stream} (hs : s.Spelled) {e : Expr} :
    Reads (.expr 0 e) s s' ↔
      e.Normal ∧ s'.Stops 0 ∧ ∃ ts, s = s'.prepend ts ∧ ts.map Token.kind = e.yield := by
  constructor
  · intro h
    obtain ⟨hn, _, hstop⟩ := h.normal
    exact ⟨hn, hstop, h.yields hs⟩
  · rintro ⟨hn, hstop, ts, rfl, hy⟩
    exact hn.leads.argument hy (fun t ht => hs.2 t (List.mem_append_left _ ht)) hstop

/-! ## Places -/

theorem getElem?_eq_current {body : List Token} (line : Nat) {j : Nat} (hj : j ≤ body.length) :
    (body ++ [⟨.endOfInput, "", line⟩])[j]? = some (Stream.current ⟨body.drop j, "", line⟩) := by
  rcases Nat.lt_or_eq_of_le hj with hlt | rfl
  · rw [List.getElem?_append_left hlt, List.getElem?_eq_getElem hlt, List.drop_eq_getElem_cons hlt]
    rfl
  · rw [List.getElem?_concat_length, List.drop_length]
    rfl

theorem extract_append_left {body us : List Token} {i j : Nat} (hij : i ≤ j)
    (hj : j ≤ body.length) : (body ++ us).extract i j = (body.drop i).take (j - i) := by
  have hle : j - i ≤ (body.drop i).length := by
    rw [List.length_drop]
    omega
  rw [List.extract_eq_take_drop, List.drop_append_of_le_length (Nat.le_trans hij hj),
    List.take_append_of_le_length hle]

/-- The streams that some tokens lead to are those that stand further on. -/
theorem drop_eq_prepend_iff {body ts : List Token} {line i : Nat} {s' : Stream} (hne : ts ≠ []) :
    (⟨body.drop i, "", line⟩ : Stream) = s'.prepend ts ↔
      ∃ j, i ≤ j ∧ j ≤ body.length ∧ s' = ⟨body.drop j, "", line⟩ ∧
        (body.drop i).take (j - i) = ts := by
  constructor
  · intro h
    obtain ⟨rest, lexeme, l⟩ := s'
    simp only [Stream.prepend, Stream.mk.injEq] at h
    obtain ⟨hd, rfl, rfl⟩ := h
    have hlen := congrArg List.length hd
    have hpos := List.length_pos_iff.mpr hne
    simp only [List.length_drop, List.length_append] at hlen
    refine ⟨i + ts.length, Nat.le_add_right .., by omega, ?_, ?_⟩
    · rw [← List.drop_drop, hd, List.drop_left]
    · rw [Nat.add_sub_cancel_left, hd, List.take_left]
  · rintro ⟨j, hij, hj, rfl, rfl⟩
    have h : body.drop j = (body.drop i).drop (j - i) := by
      rw [List.drop_drop, Nat.add_sub_cancel' hij]
    simp only [Stream.prepend, h, List.take_append_drop]

/-- `Spans ts i j e`: the tokens of `ts` from place `i` up to place `j` are those of the normal
expression `e`, and no operator that would go on with it stands at `j`. -/
structure Spans (ts : List Token) (i j : Nat) (e : Expr) : Prop where
  normal : e.Normal
  le : i ≤ j
  tokens : (ts.extract i j).map Token.kind = e.yield
  stops : ∃ t, ts[j]? = some t ∧ t.kind.binaryOp? = none

theorem spans_iff {body : List Token} {line i j : Nat} {e : Expr} :
    Spans (body ++ [⟨.endOfInput, "", line⟩]) i j e ↔
      e.Normal ∧ i ≤ j ∧ j ≤ body.length ∧ ((body.drop i).take (j - i)).map Token.kind = e.yield ∧
        Stream.Stops 0 ⟨body.drop j, "", line⟩ := by
  constructor
  · rintro ⟨hn, hij, hy, t, ht, hop⟩
    have hlt := (List.getElem?_eq_some_iff.mp ht).1
    have hj : j ≤ body.length := by
      rw [List.length_append, List.length_singleton] at hlt
      omega
    rw [getElem?_eq_current line hj] at ht
    cases ht
    rw [extract_append_left hij hj] at hy
    exact ⟨hn, hij, hj, hy, Stream.stops_zero_iff.mpr hop⟩
  · rintro ⟨hn, hij, hj, hy, hs⟩
    refine ⟨hn, hij, ?_, _, getElem?_eq_current line hj, Stream.stops_zero_iff.mp hs⟩
    rw [extract_append_left hij hj, hy]

theorem ne_nil_of_yield {ts : List Token} {e : Expr} (h : ts.map Token.kind = e.yield) :
    ts ≠ [] := by
  rintro rfl
  obtain ⟨k, ks, hk, _⟩ := e.yield_eq_cons
  rw [hk] at h
  cases h

theorem expr_ok_iff_spans {ts : List Token} (hts : Scanned ts) (i : Nat) (e : Expr) (s' : Stream) :
    Parser.expr (Stream.seek ts i) = .ok e s' ↔ ∃ j, Spans ts i j e ∧ s' = Stream.seek ts j := by
  obtain ⟨body, line, rfl, hof, hb⟩ := hts.ofTokens_eq
  have hs : Stream.Spelled ⟨body.drop i, "", line⟩ :=
    ⟨rfl, fun t ht => hb t (List.mem_of_mem_drop ht)⟩
  simp only [Stream.seek, hof]
  rw [Parser.expr_ok_iff, reads_expr_iff hs]
  constructor
  · rintro ⟨hn, hstop, ts, hpre, hy⟩
    obtain ⟨j, hij, hj, rfl, rfl⟩ := (drop_eq_prepend_iff (ne_nil_of_yield hy)).mp hpre
    exact ⟨j, spans_iff.mpr ⟨hn, hij, hj, hy, hstop⟩, rfl⟩
  · rintro ⟨j, hspan, rfl⟩
    obtain ⟨hn, hij, hj, hy, hstop⟩ := spans_iff.mp hspan
    exact ⟨hn, hstop, _, (drop_eq_prepend_iff (ne_nil_of_yield hy)).mpr ⟨j, hij, hj, rfl, rfl⟩, hy⟩

theorem Spans.end_eq {ts : List Token} {i j : Nat} {e : Expr} (h : Spans ts i j e) :
    j = i + e.yield.length := by
  obtain ⟨t, ht, _⟩ := h.stops
  have hlt := (List.getElem?_eq_some_iff.mp ht).1
  have hlen := congrArg List.length h.tokens
  have hij := h.le
  simp only [List.length_map, List.extract_eq_take_drop, List.length_take, List.length_drop] at hlen
  omega

/-- Parsing is exact, and what a place starts with is one expression at most. -/
theorem expr_exact {ts : List Token} (hts : Scanned ts) (i : Nat) :
    (∀ e s', Parser.expr (Stream.seek ts i) = .ok e s' ↔
      ∃ j, Spans ts i j e ∧ s' = Stream.seek ts j) ∧
    (∀ e e' j j', Spans ts i j e → Spans ts i j' e' → e = e' ∧ j = j') := by
  refine ⟨expr_ok_iff_spans hts i, ?_⟩
  intro e e' j j' h h'
  have hp := (expr_ok_iff_spans hts i e _).mpr ⟨j, h, rfl⟩
  have hp' := (expr_ok_iff_spans hts i e' _).mpr ⟨j', h', rfl⟩
  rw [hp] at hp'
  obtain ⟨rfl, _⟩ := EStateM.Result.ok.inj hp'
  exact ⟨rfl, by rw [h.end_eq, h'.end_eq]⟩

/-- A chain through all levels, in which each operator leaves what is on its right to the next one:
powers group to the right, under a sign that goes first, and the difference takes the sum before
it. -/
theorem expr_exact_mixed_chain :
    ∃ ts, Token.scan "x <- p || q && r == s < a + b * -c ** 2 ** d - e" = .ok ts ∧ Scanned ts ∧
      Spans ts 2 22
        (.binary (.var "p") (.logic .or)
          (.binary (.var "q") (.logic .and)
            (.binary (.var "r") (.equality .eq)
              (.binary (.var "s") (.order .lt)
                (.binary
                  (.binary (.var "a") (.arith .add)
                    (.binary (.var "b") (.arith .mul)
                      (.binary (.unary .neg (.var "c")) (.arith .pow)
                        (.binary (.number 2) (.arith .pow) (.var "d")))))
                  (.arith .sub) (.var "e")))))) := by
  let ts : List Token :=
    [⟨.name "x", "x", 1⟩, ⟨.arrow, "<-", 1⟩, ⟨.name "p", "p", 1⟩, ⟨.operator (.logic .or), "||", 1⟩,
      ⟨.name "q", "q", 1⟩, ⟨.operator (.logic .and), "&&", 1⟩, ⟨.name "r", "r", 1⟩,
      ⟨.operator (.equality .eq), "==", 1⟩, ⟨.name "s", "s", 1⟩, ⟨.operator (.order .lt), "<", 1⟩,
      ⟨.name "a", "a", 1⟩, ⟨.operator (.arith .add), "+", 1⟩, ⟨.name "b", "b", 1⟩,
      ⟨.operator (.arith .mul), "*", 1⟩, ⟨.operator (.arith .sub), "-", 1⟩, ⟨.name "c", "c", 1⟩,
      ⟨.operator (.arith .pow), "**", 1⟩, ⟨.number 2, "2", 1⟩, ⟨.operator (.arith .pow), "**", 1⟩,
      ⟨.name "d", "d", 1⟩, ⟨.operator (.arith .sub), "-", 1⟩, ⟨.name "e", "e", 1⟩,
      ⟨.endOfInput, "", 1⟩]
  have hscan : Token.scan "x <- p || q && r == s < a + b * -c ** 2 ** d - e" = .ok ts := rfl
  have hts : Scanned ts := Token.scanned_of_scan hscan
  obtain ⟨j, hspan, _⟩ := ((expr_exact hts 2).1 _ (Stream.seek ts 22)).mp rfl
  obtain rfl : j = 22 := hspan.end_eq
  exact ⟨ts, hscan, hts, hspan⟩

end Easel
