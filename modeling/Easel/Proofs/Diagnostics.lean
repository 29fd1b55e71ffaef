import Easel.Proofs.Blame
import Easel.Proofs.LineLocal

/-!
# Easel.Proofs.Diagnostics

Every diagnostic points at a line of the text that shows what it is about, whichever stage has found
the fault: the scan, the parser, the check of the labels or the run
(`Program.diagnostic_shows_culprit`).

* `Diagnostic.Points`: what all stages promise about their diagnostics.
* `Program.points_of_labels`, `Program.points_of_execute`: labels and runs report the lines of
  statements, and these are lines of the text.
* `Program.points_of_ofText`: scan and parser report the lines of tokens.
-/

namespace Easel

variable {text : String} {d : Diagnostic} {p : Program}

theorem Token.describe_eq {t : Token} (hn : t.kind ≠ .newLine) (he : t.kind ≠ .endOfInput) :
    t.describe = t.lexeme := by
  unfold describe
  split
  · exact absurd ‹_› hn
  · exact absurd ‹_› he
  · rfl

namespace Source

theorem Shows.mono {n : Nat} {s s' : List Char} (h : Shows text n s) (hs : s' <:+: s) :
    Shows text n s' := by
  obtain ⟨l, hl, hin⟩ := h
  exact ⟨l, hl, hs.trans hin⟩

theorem Shows.infix_of_lineText? {n : Nat} {s : List Char} {l : String} (h : Shows text n s)
    (hl : lineText? text n = some l) : s <:+: l.toList := by
  obtain ⟨l', hl', hin⟩ := h
  rw [hl] at hl'
  cases hl'
  exact hin

end Source

/-- What the fault quotes from the text, if the scan has found it. -/
def Fault.quoted : Fault → List Char
  | .scan f => f.quoted
  | _ => []

theorem Fault.Syntactic.quoted_eq {f : Fault} (h : f.Syntactic) : f.quoted = [] := by
  cases f with
  | scan f => cases h
  | _ => rfl

/-- The diagnostic points at a line of the text. If the scan has failed, the line shows what it
failed at; if the parser has, and says what it found, the line shows the token it stopped at; and a
label that is declared twice was declared on an earlier line. -/
structure Diagnostic.Points (text : String) (d : Diagnostic) : Prop where
  plain : d.fault.Plain
  quoted : Source.Shows text d.line d.fault.quoted
  found : ∀ found, d.fault.found? = some found → ∃ ts s, Token.scan text = .ok ts ∧
    Parser.program (.ofTokens ts) = .error d s ∧ found = s.current.describe ∧
    Source.Shows text d.line s.current.visible
  first : ∀ l firstLine, d.fault = .static (.duplicateLabel l firstLine) → firstLine < d.line

/-! ## Statements -/

/-- A fault of a statement, reported on its line. -/
theorem Diagnostic.points_of_stmt {ts : List Token} {st : Stmt} (hscan : Token.scan text = .ok ts)
    (hp : p.Placed ts 1) (hst : st ∈ p) (hline : d.line = st.line) (hplain : d.fault.Plain)
    (hquoted : d.fault.quoted = []) (hfound : d.fault.found? = none)
    (hfirst : ∀ l firstLine, d.fault = .static (.duplicateLabel l firstLine) →
      firstLine < d.line) : d.Points text where
  plain := hplain
  quoted := by
    obtain ⟨t, ht, hl⟩ := hp.line_mem st hst
    rw [hquoted, hline, ← hl]
    exact (Token.shows_of_scan hscan ht).mono List.nil_infix
  found found h := by
    rw [hfound] at h
    cases h
  first := hfirst

namespace Program

variable {ts : List Token}

/-- A label that is declared twice was declared above, since the statements stand on lines one below
the other. -/
theorem points_of_labels (hscan : Token.scan text = .ok ts) (hp : p.Placed ts 1)
    (h : p.labels = .error d) : d.Points text := by
  rcases clash_or_stray_of_labels h with hc | ⟨_, hs⟩
  · obtain ⟨l, i, j, s, s', hij, hs, _, hs', ha, _, _, rfl⟩ := hc
    obtain ⟨hi, rfl⟩ := List.getElem?_eq_some_iff.mp hs
    obtain ⟨hj, rfl⟩ := List.getElem?_eq_some_iff.mp hs'
    have hlt := List.pairwise_iff_getElem.mp hp.increasing i j hi hj hij
    have hst := List.getElem_mem hj
    have hplain := hp.plain _ hst
    rw [ha] at hplain
    cases hplain with
    | label hone =>
      refine Diagnostic.points_of_stmt hscan hp hst rfl hone rfl rfl ?_
      intro l' firstLine hf
      cases hf
      exact hlt
  · obtain ⟨l, e, j, s, hs, ha, _, _, rfl⟩ := hs
    have hst := List.mem_of_getElem? hs
    have hplain := hp.plain s hst
    rw [ha] at hplain
    cases hplain with
    | goTo hone _ =>
      refine Diagnostic.points_of_stmt hscan hp hst rfl hone rfl rfl ?_
      intro l' firstLine hf
      cases hf

theorem points_of_execute {fuel : Nat} {w w' : Studio} (hscan : Token.scan text = .ok ts)
    (hp : p.Placed ts 1) (h : p.execute fuel w = some (.failed d w')) : d.Points text := by
  rcases execute_failed h with hl | ⟨st, hst, w₀, hw⟩
  · exact points_of_labels hscan hp hl
  · obtain ⟨f, hf, rfl⟩ := Stmt.perform_eq_error_iff.mp hw
    have hplain : f.Plain := (hp.plain st hst).perform_plain _ _ _ hf
    refine Diagnostic.points_of_stmt hscan hp hst rfl hplain rfl rfl ?_
    intro l firstLine hs
    cases hs

/-! ## Texts -/

theorem points_of_scan (h : Token.scan text = .error d) : d.Points text := by
  obtain ⟨f, hf, hone, hshows⟩ := Token.shows_of_scan_error h
  refine ⟨?_, ?_, ?_, ?_⟩
  · rw [hf]
    cases f with
    | unterminatedString => trivial
    | unrecognizedCharacter c =>
      show '\n' ∉ (String.singleton c).toList
      rwa [String.toList_singleton]
    | numberOutOfRange digits => exact hone
  · rw [hf]
    exact hshows
  · intro found hfound
    rw [hf] at hfound
    cases hfound
  · intro l firstLine hs
    rw [hf] at hs
    cases hs

theorem points_of_parse (hscan : Token.scan text = .ok ts) (h : parse ts = .error d) :
    d.Points text := by
  have hplaces := Parser.places_program hscan
  rw [parse_eq_result] at h
  cases hprog : Parser.program (.ofTokens ts) with
  | ok p s =>
    rw [hprog] at h
    cases h
  | error d' s =>
    rw [hprog] at h hplaces
    cases h
    obtain ⟨m, hon, hblames⟩ := hplaces
    have hshows : Source.Shows text d.line s.current.visible := by
      rw [hblames.line]
      exact Token.shows_of_scan hscan hon.current_mem
    refine ⟨hblames.plain, ?_, ?_, ?_⟩
    · rw [hblames.syntactic.quoted_eq]
      exact hshows.mono List.nil_infix
    · intro found hf
      exact ⟨ts, s, hscan, hprog, hblames.found found hf, hshows⟩
    · intro l firstLine hs
      have hsyn := hblames.syntactic
      rw [hs] at hsyn
      cases hsyn

/-- The statements of a text stand on its lines. -/
theorem placed_of_ofText (h : ofText text = .ok p) :
    ∃ ts, Token.scan text = .ok ts ∧ p.Placed ts 1 := by
  obtain ⟨ts, hscan, hparse⟩ := exists_scan_of_ofText h
  have hplaces := Parser.places_program hscan
  rw [parse_eq_result, Parser.result_eq_ok_iff] at hparse
  obtain ⟨s, hprog⟩ := hparse
  rw [hprog] at hplaces
  exact ⟨ts, hscan, hplaces⟩

theorem points_of_ofText (h : ofText text = .error d) : d.Points text := by
  cases hscan : Token.scan text with
  | error d' =>
    rw [ofText_of_scan_error hscan] at h
    cases h
    exact points_of_scan hscan
  | ok ts =>
    rw [ofText_of_scan hscan] at h
    exact points_of_parse hscan h

theorem points_of_compile (h : compile text = .error d) : d.Points text := by
  unfold compile at h
  cases ho : ofText text with
  | error d' =>
    rw [ho] at h
    cases h
    exact points_of_ofText ho
  | ok p =>
    obtain ⟨ts, hscan, hp⟩ := placed_of_ofText ho
    cases hl : p.labels with
    | error d' =>
      simp only [ho, bind, Except.bind, hl] at h
      cases h
      exact points_of_labels hscan hp hl
    | ok t =>
      simp only [ho, bind, Except.bind, hl] at h
      cases h

theorem points_of_runText {fuel : Nat} {size : Number} {w : Studio}
    (h : runText fuel text size = some (.failed d w)) : d.Points text := by
  unfold runText at h
  cases hc : compile text with
  | error d' =>
    rw [hc] at h
    cases h
    exact points_of_compile hc
  | ok p =>
    rw [hc] at h
    obtain ⟨hp, _⟩ := ofText_of_compile hc
    obtain ⟨ts, hscan, hplaced⟩ := placed_of_ofText hp
    exact points_of_execute hscan hplaced h

/-- The diagnostic of a run that fails is about a line of the text, and its report is the message
and below it that line, behind its number: two lines. The line of the text shows the character or
the digits that the scan has failed at, or the token that the parser has stopped at; and of two
declarations of a label the first one is above. -/
theorem diagnostic_shows_culprit {fuel : Nat} {size : Number} {w : Studio}
    (h : runText fuel text size = some (.failed d w)) :
    1 ≤ d.line ∧ d.line ≤ 1 + text.toList.count '\n' ∧
    ∃ l, Source.lineText? text d.line = some l ∧
      d.report text = "ERROR: " ++ d.message ++ "\n" ++
        (String.ofList ((toString d.line).toList.leftpad 4 ' ') ++ " | " ++ l ++ "\n") ∧
      (d.report text).toList.count '\n' = 2 ∧
      (∀ c, d.fault = .scan (.unrecognizedCharacter c) → c ∈ l.toList) ∧
      (∀ digits, d.fault = .scan (.numberOutOfRange digits) → digits.toList <:+: l.toList) ∧
      (∀ found, d.fault.found? = some found → ∃ ts s, Token.scan text = .ok ts ∧
        Parser.program (.ofTokens ts) = .error d s ∧ found = s.current.describe ∧
        (s.current.kind ≠ .newLine → s.current.kind ≠ .endOfInput →
          found = s.current.lexeme ∧ found.toList <:+: l.toList)) ∧
      (∀ label firstLine, d.fault = .static (.duplicateLabel label firstLine) →
        firstLine < d.line) := by
  have hd := points_of_runText h
  obtain ⟨hpos, hle⟩ := hd.quoted.line_le
  obtain ⟨l, hl, hquoted⟩ := hd.quoted
  refine ⟨hpos, hle, l, hl, d.report_eq hl, d.count_report hd.plain hl, ?_, ?_, ?_, hd.first⟩
  · intro c hc
    rw [hc] at hquoted
    exact hquoted.subset List.mem_cons_self
  · intro digits hdigits
    rw [hdigits] at hquoted
    exact hquoted
  · intro found hf
    obtain ⟨ts, s, hscan, hprog, hdescribe, hshows⟩ := hd.found found hf
    refine ⟨ts, s, hscan, hprog, hdescribe, fun hn he => ?_⟩
    have hlexeme : s.current.describe = s.current.lexeme := Token.describe_eq hn he
    have hin := hshows.infix_of_lineText? hl
    rw [Token.visible, if_neg hn] at hin
    rw [hdescribe, hlexeme]
    exact ⟨rfl, hin⟩

/-- A parenthesis is missing before a variable that has the name by which newlines are called, and
a carriage return stands behind it. -/
theorem diagnostic_shows_culprit_variable :
    ∃ (text l : String) (d : Diagnostic), text = "Fill()\nColor(\"Red\" newline\r\nFill(" ∧
      d = ⟨2, .grammar (.missingCloseParen "Color" "newline")⟩ ∧
      runText 1 text 4 = some (.failed d (.blank 4)) ∧
      Source.lineText? text 2 = some l ∧ (d.report text).toList.count '\n' = 2 ∧
      "newline".toList <:+: l.toList := by
  obtain ⟨text, htext⟩ : ∃ text, text = "Fill()\nColor(\"Red\" newline\r\nFill(" := ⟨_, rfl⟩
  let d : Diagnostic := ⟨2, .grammar (.missingCloseParen "Color" "newline")⟩
  let rest : List Token :=
    [⟨.name "newline", "newline", 2⟩, ⟨.newLine, "\n", 2⟩, ⟨.command .fill, "Fill", 3⟩,
      ⟨.openParen, "(", 3⟩]
  let ts : List Token :=
    [⟨.command .fill, "Fill", 1⟩, ⟨.openParen, "(", 1⟩, ⟨.closeParen, ")", 1⟩,
      ⟨.newLine, "\n", 1⟩, ⟨.command .color, "Color", 2⟩, ⟨.openParen, "(", 2⟩,
      ⟨.text "Red", "\"Red\"", 2⟩] ++ rest ++ [⟨.endOfInput, "", 3⟩]
  have hscan : Token.scan text = .ok ts := by rw [htext]; rfl
  have hprog : Parser.program (.ofTokens ts) = .error d ⟨rest, "", 3⟩ := rfl
  have hrun : runText 1 text 4 = some (.failed d (.blank 4)) := by
    unfold runText compile ofText
    rw [hscan]
    rfl
  obtain ⟨_, _, l, hl, _, hreport, _, _, hfound, _⟩ := diagnostic_shows_culprit hrun
  obtain ⟨ts', s, hscan', hprog', _, hshows⟩ := hfound "newline" rfl
  obtain rfl : ts = ts' := Except.ok.inj (hscan.symm.trans hscan')
  rw [hprog] at hprog'
  cases hprog'
  exact ⟨text, l, d, htext, rfl, hrun, hl, hreport, (hshows (by decide) (by decide)).2⟩

end Program
end Easel
