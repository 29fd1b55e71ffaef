import Easel.CommandLine
import Easel.Proofs.Jumps

/-!
# Easel.Proofs.Responses

The command answers with what the library does. Its exit code and its report are those of
`Program.runText`, its output lists the studio that the run has left, and flags only put more in
front of it (`CommandLine.answer_agrees`).

* `Token.entry`, `Stroke.entry`, `Robot.entry`, `Value.entry`: the lines of an output, written out.
* `Studio.Listed`: what an output has to say about a studio.
* `Job.Prints`: what a job prints, and what it comes to.
* `Job.prints_ofText`: what is printed about a text whose run is over.
* `CommandLine.Tells`: what an answer with flags and the one without them have to say.
-/

namespace Easel

/-! ## Lines, written out

What has to stand in an output is spelled here in full, so that the listings of the program are held
against something that does not come from them. -/

namespace Text

/-- The characters that have a name of their own between quotes. -/
def escapes : List (Char × String) :=
  [('"', "\\\""), ('\\', "\\\\"), ('\t', "\\t"), ('\r', "\\r"), ('\n', "\\n"), ('\x00', "\\0")]

/-- A character as it stands between quotes: by its name, as it is, or by its code point. -/
def charEntry (c : Char) : String :=
  match escapes.lookup c with
  | some name => name
  | none =>
    if isPrintable c then String.singleton c
    else "\\u\x7b" ++ String.ofList (Nat.toDigits 16 c.toNat) ++ "\x7d"

def entry (s : String) : String := "\"" ++ String.join (s.toList.map charEntry) ++ "\""

theorem charEntry_eq (c : Char) : charEntry c = String.ofList (escape c) := by
  by_cases hc : c ∈ ['"', '\\', '\t', '\r', '\n', '\x00']
  · simp only [List.mem_cons, List.not_mem_nil, or_false] at hc
    obtain rfl | rfl | rfl | rfl | rfl | rfl := hc <;> rfl
  · have hlookup : escapes.lookup c = none := by
      rw [List.lookup_eq_none_iff]
      intro e he
      rw [bne_iff_ne]
      rintro rfl
      exact hc (List.mem_map_of_mem he)
    simp only [List.mem_cons, not_or] at hc
    obtain ⟨hquote, hslash, htab, hret, hline, hzero, -⟩ := hc
    simp only [charEntry, hlookup, escape, hquote, hslash, htab, hret, hline, hzero, if_false]
    split
    · rfl
    · simp only [codePoint, String.ofList_append]

theorem quoted_eq_entry (s : String) : quoted s = entry s := by
  have hjoin : ∀ cs : List Char,
      String.ofList (cs.flatMap escape) = String.join (cs.map charEntry) := by
    intro cs
    induction cs with
    | nil => rfl
    | cons c cs ih =>
      rw [List.flatMap_cons, String.ofList_append, ih, List.map_cons, String.join_cons,
        charEntry_eq]
  rw [quoted, entry, hjoin]

end Text

def TokenKind.entry : TokenKind → String
  | .number n => "NumberLit(" ++ toString n.toInt ++ ")"
  | .bool true => "BoolLit(true)"
  | .bool false => "BoolLit(false)"
  | .text s => "StringLit(" ++ Text.entry s ++ ")"
  | .name s => "Identifier(" ++ Text.entry s ++ ")"
  | .not => "LogicalNot"
  | .operator (.arith .add) => "Plus"
  | .operator (.arith .sub) => "Minus"
  | .operator (.arith .mul) => "Asterisk"
  | .operator (.arith .div) => "Slash"
  | .operator (.arith .mod) => "Percent"
  | .operator (.arith .pow) => "AsteriskAsterisk"
  | .operator (.order .lt) => "LessThan"
  | .operator (.order .gt) => "GreaterThan"
  | .operator (.order .le) => "LessThanEquals"
  | .operator (.order .ge) => "GreaterThanEquals"
  | .operator (.equality .eq) => "EqualsEquals"
  | .operator (.equality .ne) => "NotEquals"
  | .operator (.logic .and) => "AndAnd"
  | .operator (.logic .or) => "OrOr"
  | .arrow => "Arrow"
  | .openParen => "OpenParen"
  | .closeParen => "CloseParen"
  | .openBracket => "OpenBracket"
  | .closeBracket => "CloseBracket"
  | .comma => "Comma"
  | .newLine => "NewLine"
  | .command .spawn => "Spawn"
  | .command .color => "Color"
  | .command .size => "Size"
  | .command .drawLine => "DrawLine"
  | .command .drawCircle => "DrawCircle"
  | .command .drawRectangle => "DrawRectangle"
  | .command .fill => "Fill"
  | .query .actualX => "GetActualX"
  | .query .actualY => "GetActualY"
  | .query .canvasSize => "GetCanvasSize"
  | .query .colorCount => "GetColorCount"
  | .query .isBrushColor => "IsBrushColor"
  | .query .isBrushSize => "IsBrushSize"
  | .query .isCanvasColor => "IsCanvasColor"
  | .goTo => "GoTo"
  | .invalid => "Error"
  | .endOfInput => "EndOfInput"

/-- The line number, brought to four columns by blanks, and the kind. -/
def Token.entry (t : Token) : String :=
  String.ofList ((toString t.line).toList.leftpad 4 ' ') ++ " " ++ t.kind.entry ++ "\n"

def Color.entry : Color → String
  | .red => "Red"
  | .blue => "Blue"
  | .green => "Green"
  | .yellow => "Yellow"
  | .purple => "Purple"
  | .black => "Black"
  | .white => "White"
  | .grey => "Grey"
  | .transparent => "Transparent"

def Position.entry (p : Position) : String :=
  "Position \x7b x: " ++ toString p.x.toInt ++ ", y: " ++ toString p.y.toInt ++ " \x7d"

def Brush.entry (b : Brush) : String :=
  "Brush \x7b color: " ++ b.color.entry ++ ", size: " ++ toString b.size.toInt ++ " \x7d"

def Stroke.entry : Stroke → String
  | .line p q b =>
    "Line \x7b from: " ++ p.entry ++ ", to: " ++ q.entry ++ ", brush: " ++ b.entry ++ " \x7d\n"
  | .circle p r b =>
    "Circle \x7b center: " ++ p.entry ++ ", radius: " ++ toString r.toInt ++ ", brush: " ++
      b.entry ++ " \x7d\n"
  | .rectangle p w h b =>
    "Rectangle \x7b center: " ++ p.entry ++ ", width: " ++ toString w.toInt ++ ", height: " ++
      toString h.toInt ++ ", brush: " ++ b.entry ++ " \x7d\n"
  | .fill p b => "Fill \x7b at: " ++ p.entry ++ ", brush: " ++ b.entry ++ " \x7d\n"

/-- Where the robot stands and what it paints with. -/
def Robot.entry (r : Robot) : String :=
  "cursor (" ++ toString r.cursor.x.toInt ++ ", " ++ toString r.cursor.y.toInt ++ "), brush " ++
    r.brush.color.entry ++ " size " ++ toString r.brush.size.toInt ++ "\n"

/-- A variable with its value. -/
def Value.entry (x : String) : Value → String
  | .number n => x ++ " = " ++ toString n.toInt ++ "\n"
  | .bool true => x ++ " = true\n"
  | .bool false => x ++ " = false\n"

theorem TokenKind.listing_eq_entry (k : TokenKind) : k.listing = k.entry := by
  unfold listing entry
  cases k with
  | bool b => cases b <;> rfl
  | text s =>
    simp only [Text.quoted_eq_entry]
    rfl
  | name s =>
    simp only [Text.quoted_eq_entry]
    rfl
  | operator op => cases op with
    | arith op => cases op <;> rfl
    | order op => cases op <;> rfl
    | equality op => cases op <;> rfl
    | logic op => cases op <;> rfl
  | command c => cases c <;> rfl
  | query q => cases q <;> rfl
  | _ => rfl

theorem Token.listing_eq_entry (t : Token) : t.listing = t.entry := by
  rw [listing, entry, Source.alignRight_eq_leftpad, t.kind.listing_eq_entry]

example : Token.entry ⟨.operator (.arith .pow), "**", 12⟩ = "  12 AsteriskAsterisk\n" := by
  decide

theorem Color.name_eq_entry (c : Color) : c.name = c.entry := by
  cases c <;> rfl

theorem Position.listing_eq_entry (p : Position) : p.listing = p.entry := by
  unfold listing entry
  rw [Number.text, Number.text]
  apply String.ext
  simp [record]

theorem Brush.listing_eq_entry (b : Brush) : b.listing = b.entry := by
  unfold listing entry
  rw [Color.name_eq_entry, Number.text]
  generalize b.color.entry = color
  apply String.ext
  simp [record]

theorem Stroke.listing_eq_entry (k : Stroke) : k.listing ++ "\n" = k.entry := by
  unfold listing entry
  cases k
  all_goals
    simp only [Position.listing_eq_entry, Brush.listing_eq_entry, Number.text]
    generalize Brush.entry _ = brush
    apply String.ext
    simp [record]

example : Stroke.entry (.circle ⟨3, -1⟩ 2 ⟨.red, 1⟩) =
    "Circle \x7b center: Position \x7b x: 3, y: -1 \x7d, radius: 2, " ++
      "brush: Brush \x7b color: Red, size: 1 \x7d \x7d\n" := by
  decide

theorem Robot.stance_eq_entry (r : Robot) : r.stance = r.entry := by
  unfold stance entry
  simp only [Number.text, Color.name_eq_entry]

theorem variableListing_eq_entry (x : String) (v : Value) :
    variableListing (x, v) = v.entry x := by
  cases v with
  | number n => rfl
  | bool b =>
    apply String.ext
    cases b <;> simp [variableListing, Value.text, Value.entry]

/-! ## Studios -/

namespace Studio

/-- The text lists the strokes in the order they were made, then the robot, then every variable that
has a value, once and in the order of the names. -/
def Listed (w : Studio) (s : String) : Prop :=
  ∃ vars : List (String × Value), vars.Pairwise (fun a b => a.1 < b.1) ∧
    (∀ x v, (x, v) ∈ vars ↔ w.robot.valueOf? x = some v) ∧
    s = String.join (w.canvas.strokes.toList.map Stroke.entry) ++ w.robot.entry ++
      String.join (vars.map fun v => v.2.entry v.1)

def entries (w : Studio) : String :=
  String.join (w.canvas.strokes.toList.map Stroke.entry) ++
    (w.robot.entry ++ String.join (w.robot.variables.toList.map fun v => v.2.entry v.1))

theorem listed_entries (w : Studio) : w.Listed w.entries := by
  refine ⟨w.robot.variables.toList, ?_, ?_, (String.append_assoc ..).symm⟩
  · have hkeys := w.robot.variables.ordered_keys_toList
    exact hkeys.imp fun h => compareOfLessAndEq_eq_lt.mp h
  · intro x v
    exact Std.TreeMap.mem_toList_iff_getElem?_eq_some

end Studio

/-! ## Jobs -/

namespace Job

variable {α β : Type}

theorem run_bind (x : Job α) (f : α → Job β) (before : String) :
    (x >>= f).run.run before =
      (x.run.run before).bind fun after => (ExceptT.bindCont f after.1).run after.2 := rfl

/-- Whatever was printed before, the job prints the text and comes to the result. -/
def Prints (x : Job α) (s : String) (r : Except Diagnostic α) : Prop :=
  ∀ before, x.run.run before = some (r, before ++ s)

theorem prints_print (s : String) : Prints (print s) s (.ok ()) := fun _ => rfl

theorem prints_pure (a : α) : Prints (pure a) "" (.ok a) := fun before => by
  rw [String.append_empty]
  rfl

theorem prints_throw (d : Diagnostic) : Prints (throw d : Job α) "" (.error d) := fun before => by
  rw [String.append_empty]
  rfl

section Bind

variable {x : Job α} {f : α → Job β} {s s' : String} {a : α} {d : Diagnostic}
  {r : Except Diagnostic β}

theorem Prints.bind (hx : Prints x s (.ok a)) (hf : Prints (f a) s' r) :
    Prints (x >>= f) (s ++ s') r := by
  intro before
  have hrun : (x >>= f).run.run before = (f a).run.run (before ++ s) := by
    rw [run_bind, hx before]
    rfl
  rw [hrun, hf, String.append_assoc]

/-- What is printed before a failure stays. -/
theorem Prints.bind_error (hx : Prints x s (.error d)) : Prints (x >>= f) s (.error d) := by
  intro before
  rw [run_bind, hx before]
  rfl

end Bind

/-- What a stage has come to is not printed. -/
theorem prints_ofExcept (r : Except Diagnostic α) : Prints (ofExcept r) "" r := by
  cases r with
  | ok a => exact prints_pure a
  | error d => exact prints_throw d

theorem prints_forM {l : List α} {line entry : α → String} (h : ∀ a, line a = entry a) :
    Prints (l.forM fun a => print (line a)) (String.join (l.map entry)) (.ok ()) := by
  induction l with
  | nil => exact prints_pure ()
  | cons a l ih =>
    rw [List.map_cons, String.join_cons, ← h a]
    exact (prints_print (line a)).bind ih

theorem prints_list (w : Studio) : Prints (list w) w.entries (.ok ()) := by
  have hstance : Prints (print w.robot.stance) w.robot.entry (.ok ()) := by
    rw [← Robot.stance_eq_entry]
    exact prints_print _
  have hvars := prints_forM (l := w.robot.variables.toList) fun v =>
    variableListing_eq_entry v.1 v.2
  exact (prints_forM Stroke.listing_eq_entry).bind (hstance.bind hvars)

/-- A stage that is only taken if it is asked for. -/
theorem Prints.when {b : Bool} {x : Job Unit} {k : Unit → Job β} {s s' : String}
    {r : Except Diagnostic β} (hx : Prints x s (.ok ())) (hk : Prints (k ()) s' r) :
    Prints (if b then x >>= k else k ()) ((if b then s else "") ++ s') r := by
  cases b with
  | false => exact String.empty_append.symm ▸ hk
  | true => exact hx.bind hk

theorem prints_listTokens {text : String} {ts : List Token} (h : Token.scan text = .ok ts) :
    Prints (listTokens text) (String.join (ts.map Token.entry)) (.ok ()) := by
  have hscan := prints_ofExcept (Token.scan text)
  rw [h] at hscan
  rw [listTokens, h, ← String.empty_append (s := String.join _)]
  exact hscan.bind (prints_forM Token.listing_eq_entry)

theorem prints_listTokens_error {text : String} {d : Diagnostic} (h : Token.scan text = .error d) :
    Prints (listTokens text) "" (.error d) := by
  have hscan := prints_ofExcept (Token.scan text)
  rw [h] at hscan
  rw [listTokens, h]
  exact hscan.bind_error

end Job

/-! ## Runs that are over -/

namespace Program

variable {fuel : Nat} {text : String} {size : Number} {out : Outcome}

/-- A text whose run is over was refused, or its run has finished or failed. -/
theorem runText_eq_some (h : runText fuel text size = some out) :
    (∃ d, compile text = .error d ∧ out = .failed d (.blank size)) ∨
    ∃ p, compile text = .ok p ∧ p.execute fuel (.blank size) = some out ∧
      ((∃ w, out = .finished w) ∨ ∃ d w, out = .failed d w) := by
  unfold runText at h
  split at h
  · rename_i d hc
    exact .inl ⟨d, hc, (Option.some.inj h).symm⟩
  · rename_i p hc
    exact .inr ⟨p, hc, h, finished_or_failed_of_halts ⟨fuel, h⟩⟩

theorem compile_of_scan_error {d : Diagnostic} (h : Token.scan text = .error d) :
    compile text = .error d := by
  unfold compile ofText
  rw [h]
  rfl

end Program

namespace CommandLine

/-- The lines that the flags put in front: the tokens, if the text can be scanned, and the outline,
if it can be compiled. -/
def front (tokens outline : Bool) (text : String) : String :=
  (match Token.scan text with
    | .ok ts => if tokens then String.join (ts.map Token.entry) else ""
    | .error _ => "") ++
  match Program.compile text with
    | .ok p => if outline then p.outline else ""
    | .error _ => ""

/-- The lines about a run that is over: none, if the text was refused. -/
def body (text : String) (out : Outcome) : String :=
  match Program.compile text with
  | .ok _ => out.studio.entries
  | .error _ => ""

end CommandLine

/-- What a run that is over has come to. -/
def Outcome.verdict : Outcome → Except Diagnostic Unit
  | .failed d _ => .error d
  | _ => .ok ()

namespace Job

variable {fuel : Nat} {text : String} {o : Options} {out : Outcome}

theorem prints_execute {size : Number} {p : Program}
    (h : p.execute fuel (.blank size) = some out)
    (hend : (∃ w, out = .finished w) ∨ ∃ d w, out = .failed d w) :
    Prints (execute fuel size p) out.studio.entries out.verdict := by
  unfold execute
  obtain ⟨w, rfl⟩ | ⟨d, w, rfl⟩ := hend
  · rw [h]
    exact prints_list w
  · have hfail : Prints (list w >>= fun _ => (throw d : Job Unit)) (w.entries ++ "") (.error d) :=
      (prints_list w).bind (prints_throw d)
    rw [h]
    rwa [String.append_empty] at hfail

/-- The text is scanned once more for its tokens, and where that fails so does the compilation, with
the same diagnostic. -/
theorem prints_ofText (h : Program.runText fuel text o.canvasSize = some out) :
    Prints (ofText fuel o text)
      (CommandLine.front o.tokens o.outline text ++ CommandLine.body text out) out.verdict := by
  have hcompile := prints_ofExcept (Program.compile text)
  unfold ofText CommandLine.front CommandLine.body
  cases hscan : Token.scan text with
  | error d =>
    have hc := Program.compile_of_scan_error hscan
    obtain ⟨d', hc', rfl⟩ | ⟨p, hc', _⟩ := Program.runText_eq_some h
    · obtain rfl : d = d' := Except.error.inj (hc.symm.trans hc')
      rw [hc] at hcompile
      simp only [hc, String.append_empty]
      split
      · exact (prints_listTokens_error hscan).bind_error
      · exact hcompile.bind_error
    · rw [hc] at hc'
      cases hc'
  | ok ts =>
    simp only [String.append_assoc]
    refine (prints_listTokens hscan).when ?_
    obtain ⟨d, hc, rfl⟩ | ⟨p, hc, hx, hend⟩ := Program.runText_eq_some h
    · rw [hc] at hcompile
      simp only [hc, String.append_empty]
      exact hcompile.bind_error
    · rw [hc] at hcompile
      simp only [hc]
      rw [← String.empty_append (s := _ ++ out.studio.entries)]
      exact hcompile.bind ((prints_print p.outline).when (prints_execute hx hend))

end Job

/-! ## Answers -/

namespace CommandLine

def exitCode : Outcome → Nat
  | .failed _ _ => 1
  | _ => 0

def reportOf (text : String) : Outcome → String
  | .failed d _ => d.report text
  | _ => ""

/-- `Tells text out o r plain`: of two answers to a text whose run has come to `out`, `r` was asked
for with the options and `plain` with the same options less their flags. They succeed or report the
failure exactly as the run does. The plain one lists the studio that the run has left, or nothing if
the text was refused before it ran; in the other one the lines of the flags come first, and nothing
else is changed. -/
structure Tells (text : String) (out : Outcome) (o : Options) (r plain : Response) : Prop where
  ending : (∃ w, out = .finished w ∧ r.exit = 0 ∧ r.stderr = "") ∨
    ∃ d w, out = .failed d w ∧ r.exit = 1 ∧ r.stderr = d.report text
  refused : ∀ d, Program.compile text = .error d → plain.stdout = ""
  listed : ∀ p, Program.compile text = .ok p → out.studio.Listed plain.stdout
  exit : r.exit = plain.exit
  stderr : r.stderr = plain.stderr
  stdout : r.stdout = front o.tokens o.outline text ++ plain.stdout

variable {fuel : Nat} {text : String} {o : Options} {out : Outcome}

theorem perform_eq (h : Program.runText fuel text o.canvasSize = some out) :
    perform fuel o text =
      some ⟨exitCode out, front o.tokens o.outline text ++ body text out, reportOf text out⟩ := by
  have hprints := Job.prints_ofText h ""
  rw [String.empty_append] at hprints
  unfold perform
  rw [hprints]
  obtain ⟨d, _, rfl⟩ | ⟨p, _, _, ⟨w, rfl⟩ | ⟨d, w, rfl⟩⟩ := Program.runText_eq_some h
  · rfl
  · rfl
  · rfl

theorem front_nothing (text : String) : front false false text = "" := by
  unfold front
  cases Token.scan text <;> cases Program.compile text <;> rfl

/-- The command agrees with the library, for every file with a text whose run is over, whatever the
options are: compared with the same options less their flags, it answers with the same exit code and
the same report, and with the lines of the flags in front of the same output. -/
theorem answer_agrees {path : String} {read : String → Except String String}
    (hread : read path = .ok text) (h : Program.runText fuel text o.canvasSize = some out) :
    ∃ r plain, answer fuel path o read = some r ∧
      answer fuel path { o with tokens := false, outline := false } read = some plain ∧
      Tells text out o r plain := by
  have hanswer : ∀ o : Options, answer fuel path o read = perform fuel o text := fun o => by
    rw [answer, hread]
  rw [hanswer, hanswer]
  refine ⟨_, _, perform_eq h, perform_eq h, ?_, ?_, ?_, rfl, rfl, ?_⟩
  · obtain ⟨d, _, rfl⟩ | ⟨p, _, _, ⟨w, rfl⟩ | ⟨d, w, rfl⟩⟩ := Program.runText_eq_some h
    · exact .inr ⟨d, _, rfl, rfl, rfl⟩
    · exact .inl ⟨w, rfl, rfl, rfl⟩
    · exact .inr ⟨d, w, rfl, rfl, rfl⟩
  · intro d hc
    simp only [front_nothing, body, hc, String.empty_append]
  · intro p hc
    simp only [front_nothing, body, hc, String.empty_append]
    exact out.studio.listed_entries
  · simp only [front_nothing, String.empty_append]

/-- A run that fails when it has drawn a line and two variables have values, asked for with both
flags. -/
theorem answer_agrees_after_failure :
    ∃ (text : String) (o : Options) (d : Diagnostic) (w : Studio) (r plain : Response),
      text = "b <- 7\na <- b == b\nDrawLine(1, 0, 3)\nSize(0)" ∧ o = ⟨5, true, true, false⟩ ∧
      d = ⟨4, .run (.invalidBrushSize 0)⟩ ∧ Program.runText 5 text 5 = some (.failed d w) ∧
      answer 5 "drawing" o (fun _ => .ok text) = some r ∧
      answer 5 "drawing" ⟨5, false, false, false⟩ (fun _ => .ok text) = some plain ∧
      r.exit = 1 ∧ r.stderr = d.report text ∧ w.Listed plain.stdout ∧
      r.stdout = front true true text ++ plain.stdout := by
  obtain ⟨text, htext⟩ :
      ∃ text, text = "b <- 7\na <- b == b\nDrawLine(1, 0, 3)\nSize(0)" := ⟨_, rfl⟩
  let p : Program :=
    [⟨1, .assign "b" .number (.number 7)⟩,
      ⟨2, .assign "a" .boolean (.binary (.var "b") (.equality .eq) (.var "b"))⟩,
      ⟨3, .command .drawLine [.number 1, .number 0, .number 3]⟩, ⟨4, .command .size [.number 0]⟩]
  let d : Diagnostic := ⟨4, .run (.invalidBrushSize 0)⟩
  let w₀ : Studio := ((Studio.blank 5).assign "b" (.number 7)).assign "a" (.bool true)
  let w : Studio := (w₀.draw (.line ⟨0, 0⟩ ⟨3, 0⟩ {})).moveTo ⟨3, 0⟩
  have hscan : Token.scan text =
      .ok [⟨.name "b", "b", 1⟩, ⟨.arrow, "<-", 1⟩, ⟨.number 7, "7", 1⟩, ⟨.newLine, "\n", 1⟩,
        ⟨.name "a", "a", 2⟩, ⟨.arrow, "<-", 2⟩, ⟨.name "b", "b", 2⟩,
        ⟨.operator (.equality .eq), "==", 2⟩, ⟨.name "b", "b", 2⟩, ⟨.newLine, "\n", 2⟩,
        ⟨.command .drawLine, "DrawLine", 3⟩, ⟨.openParen, "(", 3⟩, ⟨.number 1, "1", 3⟩,
        ⟨.comma, ",", 3⟩, ⟨.number 0, "0", 3⟩, ⟨.comma, ",", 3⟩, ⟨.number 3, "3", 3⟩,
        ⟨.closeParen, ")", 3⟩, ⟨.newLine, "\n", 3⟩, ⟨.command .size, "Size", 4⟩,
        ⟨.openParen, "(", 4⟩, ⟨.number 0, "0", 4⟩, ⟨.closeParen, ")", 4⟩,
        ⟨.endOfInput, "", 4⟩] := by
    rw [htext]
    rfl
  have hcompile : Program.compile text = .ok p := by
    unfold Program.compile Program.ofText
    rw [hscan]
    rfl
  have hrun : Program.runText 5 text 5 = some (.failed d w) := by
    rw [Program.runText, hcompile]
    rfl
  let read : String → Except String String := fun _ => .ok text
  have hread : read "drawing" = .ok text := rfl
  obtain ⟨r, plain, hr, hp, htells⟩ :=
    answer_agrees (o := ⟨5, true, true, false⟩) hread hrun
  obtain ⟨_, hout, _⟩ | ⟨_, _, hout, hexit, hreport⟩ := htells.ending
  · cases hout
  · cases hout
    exact ⟨text, _, d, w, r, plain, htext, rfl, rfl, hrun, hr, hp, hexit, hreport,
      htells.listed p hcompile, htells.stdout⟩

end CommandLine
end Easel
