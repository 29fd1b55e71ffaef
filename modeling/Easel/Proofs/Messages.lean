import Easel.Proofs.Effects
import Easel.Proofs.Lines

/-!
# Easel.Proofs.Messages

Messages are one line long. The wording has no newline in it, so a message has none if there is none
in the words it quotes (`Fault.Plain.oneLine_message`). These are words of the language or come from
the program, and the words of a program that was read from a text have no newline.

* `Fault.Plain`, `Expr.Plain`, `Action.Plain`: words that are one line each.
* `Param.ofCheck_of_checkAll`: what the check of an argument list can report.
* `Action.Plain.perform_plain`: a statement that fails quotes words of its own or of the language.
* `Diagnostic.count_report`: a report is a line for the message and a line of the text.
-/

namespace Easel

/-! ## Texts on one line -/

def OneLine (s : String) : Prop := '\n' ∉ s.toList

instance (s : String) : Decidable (OneLine s) := inferInstanceAs (Decidable ('\n' ∉ s.toList))

theorem oneLine_append_iff {s t : String} : OneLine (s ++ t) ↔ OneLine s ∧ OneLine t := by
  simp [OneLine, not_or]

theorem oneLine_toString_iff {s : String} : OneLine (toString s) ↔ OneLine s := Iff.rfl

theorem oneLine_nat (n : Nat) : OneLine (toString n) := by
  show '\n' ∉ (Nat.repr n).toList
  rw [Nat.repr, String.toList_ofList]
  intro h
  exact absurd (Nat.isDigit_of_mem_toDigits (by decide) (by decide) h) (by decide)

theorem Number.oneLine_text (n : Number) : OneLine n.text := by
  unfold text
  cases n.toInt with
  | ofNat m => exact oneLine_nat m
  | negSucc m =>
    show OneLine ("-" ++ toString (m + 1))
    rw [oneLine_append_iff]
    exact ⟨by decide, oneLine_nat (m + 1)⟩

theorem Ty.oneLine_text (t : Ty) : OneLine t.text := by cases t <;> decide

/-! ## Messages -/

/-- What a message says was found in place of what was wanted. -/
def Fault.found? : Fault → Option String
  | .grammar (.unexpectedToken _ found) => some found
  | .grammar (.unknownStatement found) => some found
  | .grammar (.missingCloseParen _ found) => some found
  | _ => none

-- A fault is plain if what its message quotes is one line.

def ScanFault.Plain : ScanFault → Prop
  | .unterminatedString => True
  | .unrecognizedCharacter c => OneLine (toString c)
  | .numberOutOfRange digits => OneLine digits

def GrammarFault.Plain : GrammarFault → Prop
  | .unexpectedToken expected found => OneLine expected ∧ OneLine found
  | .unknownStatement found => OneLine found
  | .argumentCount name _ _ => OneLine name
  | .trailingComma name => OneLine name
  | .missingCloseParen name found => OneLine name ∧ OneLine found

def StaticFault.Plain : StaticFault → Prop
  | .invalidArgument name _ expected => OneLine name ∧ OneLine expected
  | .unknownColor name color => OneLine name ∧ OneLine color
  | .nonBooleanCondition label => OneLine label
  | .untypedExpression => True
  | .duplicateLabel label _ => OneLine label
  | .undefinedLabel label => OneLine label

def RunFault.Plain : RunFault → Prop
  | .undefinedVariable name => OneLine name
  | .typeMismatch context _ _ => OneLine context
  | .argumentCount name _ _ => OneLine name
  | .invalidColor found => OneLine found
  | .invalidDirection command _ _ => OneLine command
  | .negativeLength command what _ => OneLine command ∧ OneLine what
  | _ => True

def Fault.Plain : Fault → Prop
  | .scan f => f.Plain
  | .grammar f => f.Plain
  | .static f => f.Plain
  | .run f => f.Plain

theorem ScanFault.Plain.oneLine_message {f : ScanFault} (h : f.Plain) (line : Nat) :
    OneLine (f.message line) := by
  cases f
  all_goals
    unfold Plain at h
    unfold message
    simp only [oneLine_append_iff, oneLine_toString_iff, oneLine_nat, h]
    simp [OneLine]

theorem GrammarFault.Plain.oneLine_message {f : GrammarFault} (h : f.Plain) (line : Nat) :
    OneLine (f.message line) := by
  cases f
  all_goals
    unfold Plain at h
    unfold message
    simp only [oneLine_append_iff, oneLine_toString_iff, oneLine_nat, h]
    simp [OneLine]

theorem StaticFault.Plain.oneLine_message {f : StaticFault} (h : f.Plain) (line : Nat) :
    OneLine (f.message line) := by
  cases f
  all_goals
    unfold Plain at h
    unfold message
    simp only [oneLine_append_iff, oneLine_toString_iff, oneLine_nat, h]
    simp [OneLine]

theorem RunFault.Plain.oneLine_message {f : RunFault} (h : f.Plain) (line : Nat) :
    OneLine (f.message line) := by
  cases f
  all_goals
    unfold Plain at h
    unfold message
    simp only [oneLine_append_iff, oneLine_toString_iff, oneLine_nat, Number.oneLine_text,
      Ty.oneLine_text, h]
    simp [OneLine]

theorem Fault.Plain.oneLine_message {f : Fault} (h : f.Plain) (line : Nat) :
    OneLine (f.message line) := by
  cases f with
  | scan f => exact ScanFault.Plain.oneLine_message h line
  | grammar f => exact GrammarFault.Plain.oneLine_message h line
  | static f => exact StaticFault.Plain.oneLine_message h line
  | run f => exact RunFault.Plain.oneLine_message h line

/-- A report is the message and below it the line of the text, behind its number. -/
theorem Diagnostic.report_eq {text l : String} {d : Diagnostic}
    (hl : Source.lineText? text d.line = some l) :
    d.report text = "ERROR: " ++ d.message ++ "\n" ++
      (String.ofList ((toString d.line).toList.leftpad 4 ' ') ++ " | " ++ l ++ "\n") := by
  rw [report, hl, Source.alignRight_eq_leftpad]

/-- Neither part of a report has more than its one line. -/
theorem Diagnostic.count_report {text l : String} {d : Diagnostic} (h : d.fault.Plain)
    (hl : Source.lineText? text d.line = some l) : (d.report text).toList.count '\n' = 2 := by
  have hm : d.message.toList.count '\n' = 0 := List.count_eq_zero.mpr (h.oneLine_message d.line)
  have ht : l.toList.count '\n' = 0 :=
    List.count_eq_zero.mpr (Source.newline_not_mem_of_lineText? hl)
  have hn : (Source.alignRight 4 (toString d.line)).toList.count '\n' = 0 := by
    refine List.count_eq_zero.mpr (oneLine_append_iff.mpr ⟨?_, oneLine_nat d.line⟩)
    simp [OneLine, List.mem_replicate]
  have h₁ : "ERROR: ".toList.count '\n' = 0 := by decide
  have h₂ : " | ".toList.count '\n' = 0 := by decide
  have h₃ : "\n".toList.count '\n' = 1 := by decide
  simp only [report, hl, String.toList_append, List.count_append, hm, ht, hn, h₁, h₂, h₃]

/-! ## Words of the language -/

theorem Command.oneLine_keyword (c : Command) : OneLine c.keyword := by cases c <;> decide

theorem Query.oneLine_keyword (q : Query) : OneLine q.keyword := by cases q <;> decide

theorem Param.oneLine_text (p : Param) : OneLine p.text := by cases p <;> decide

theorem UnaryOp.oneLine_context (op : UnaryOp) : OneLine op.context := by cases op <;> decide

theorem BinaryOp.oneLine_symbol (op : BinaryOp) : OneLine op.symbol := by
  rcases op with op | op | op | op <;> cases op <;> decide

theorem BinaryOp.oneLine_context (op : BinaryOp) : OneLine op.context :=
  oneLine_append_iff.mpr ⟨oneLine_append_iff.mpr ⟨by decide, op.oneLine_symbol⟩, by decide⟩

/-! ## Words of the program -/

/-- The names and texts in the expression are one line each. -/
inductive Expr.Plain : Expr → Prop where
  | number {n : Number} : Plain (.number n)
  | bool {b : Bool} : Plain (.bool b)
  | text {s : String} : OneLine s → Plain (.text s)
  | var {x : String} : OneLine x → Plain (.var x)
  | unary {op : UnaryOp} {e : Expr} : Plain e → Plain (.unary op e)
  | binary {l r : Expr} {op : BinaryOp} : Plain l → Plain r → Plain (.binary l op r)
  | group {e : Expr} : Plain e → Plain (.group e)
  | call {q : Query} {args : List Expr} : (∀ e ∈ args, Plain e) → Plain (.call q args)

theorem Expr.Plain.text? {e : Expr} (h : e.Plain) (s : String) (hs : e.text? = some s) :
    OneLine s := by
  cases h <;> cases hs
  assumption

/-- Labels and the names and texts in expressions are one line each. -/
inductive Action.Plain : Action → Prop where
  | assign {x : String} {ty : Ty} {e : Expr} : e.Plain → Plain (.assign x ty e)
  | command {c : Command} {args : List Expr} : (∀ e ∈ args, e.Plain) → Plain (.command c args)
  | label {l : String} : OneLine l → Plain (.label l)
  | goTo {l : String} {e : Expr} : OneLine l → e.Plain → Plain (.goTo l e)
  | discard {e : Expr} : e.Plain → Plain (.discard e)

/-! ## Faults of checks -/

/-- The parser reports such faults. -/
def Fault.Syntactic : Fault → Prop
  | .grammar _ => True
  | .static (.duplicateLabel _ _) => False
  | .static (.undefinedLabel _) => False
  | .static _ => True
  | _ => False

/-- The parser reports such a fault about what it has read, and not about the token that comes
next. -/
structure Fault.OfCheck (f : Fault) : Prop where
  syntactic : f.Syntactic
  found : f.found? = none
  plain : f.Plain

namespace Param

variable {name : String} {f : Fault}

theorem ofCheck_of_check {p : Param} {position : Nat} {e : Expr} (hn : OneLine name) (he : e.Plain)
    (h : p.check name position e = .error f) : f.OfCheck := by
  cases p with
  | color =>
    simp only [check] at h
    split at h
    · rename_i s hs
      split at h
      · cases h
      · cases h
        exact ⟨trivial, rfl, hn, he.text? s hs⟩
    · cases h
      exact ⟨trivial, rfl, hn, Param.oneLine_text _⟩
  | numeric =>
    simp only [check] at h
    split at h
    · cases h
    · cases h
      exact ⟨trivial, rfl, hn, Param.oneLine_text _⟩

theorem ofCheck_of_checkEach {ps : List Param} (hn : OneLine name) :
    ∀ {es : List Expr} {position : Nat}, (∀ e ∈ es, e.Plain) →
      checkEach name position ps es = .error f → f.OfCheck := by
  induction ps with
  | nil => intro es position he h; cases h
  | cons p ps ih =>
    intro es position he h
    cases es with
    | nil => cases h
    | cons e es =>
      rw [List.forall_mem_cons] at he
      simp only [checkEach] at h
      split at h
      · exact ih he.2 h
      · rename_i f' hc
        cases h
        exact ofCheck_of_check hn he.1 hc

theorem ofCheck_of_checkAll {ps : List Param} {es : List Expr} (hn : OneLine name)
    (he : ∀ e ∈ es, e.Plain) (h : checkAll name ps es = .error f) :
    f.OfCheck := by
  unfold checkAll at h
  split at h
  · cases h
    exact ⟨trivial, rfl, hn⟩
  · exact ofCheck_of_checkEach hn he h

end Param

/-! ## Faults of expressions -/

/-- The argument is one line as far as it is a text, and has plain faults only. -/
structure Argument.Plain (a : Argument) : Prop where
  text : ∀ s, a.text? = some s → OneLine s
  value : Ends RunFault.Plain (fun _ => True) a.value

namespace Argument

variable {context : String}

theorem Plain.number {a : Argument} (h : a.Plain) (hc : OneLine context) :
    Ends RunFault.Plain (fun _ => True) (a.number context) :=
  number_ends h.value fun _ _ => hc

theorem Plain.color {a : Argument} (h : a.Plain) :
    Ends RunFault.Plain (fun _ => True) a.color := by
  obtain ⟨text?, value⟩ := a
  unfold Argument.color
  cases text? with
  | some s =>
    have hs : OneLine s := h.text s rfl
    dsimp only
    split
    · trivial
    · exact oneLine_append_iff.mpr ⟨oneLine_append_iff.mpr ⟨by decide, hs⟩, by decide⟩
  | none =>
    rcases value with f | (n | (_ | _))
    · exact h.value
    · exact n.oneLine_text
    · show OneLine "false"; decide
    · show OneLine "true"; decide

end Argument

/-- Plain arguments are good enough for any parameters. -/
theorem Param.accepts_plain {context : String} {ps : List Param} {args : List Argument}
    (hlen : args.length = ps.length) (h : ∀ a ∈ args, a.Plain) (hc : OneLine context) :
    List.Forall₂ (Accepts RunFault.Plain context) ps args := by
  refine List.forall₂_iff_zip.mpr ⟨hlen.symm, @fun p a hmem => ?_⟩
  have ha : a.Plain := h a (List.of_mem_zip hmem).2
  cases p with
  | color => exact ha.color
  | numeric => exact ha.number hc

theorem Query.answer_plain (w : Studio) (q : Query) {args : List Argument}
    (h : ∀ a ∈ args, a.Plain) : Ends RunFault.Plain (fun _ => True) (q.answer w args) := by
  by_cases hlen : args.length = q.params.length
  · have hargs := Param.accepts_plain hlen h q.oneLine_keyword
    exact (answer_ends hargs).mono (fun _ hf => hf) fun _ _ => trivial
  · rw [answer_of_length_ne hlen]
    exact q.oneLine_keyword

theorem RunFault.Arithmetic.plain {f : RunFault} (h : f.Arithmetic) : f.Plain := by
  rcases h with rfl | rfl | rfl <;> trivial

theorem UnaryOp.apply_plain (op : UnaryOp) (v : Value) :
    Ends RunFault.Plain (fun _ => True) (op.apply v) := by
  by_cases h : v.ty = op.ty
  · exact (apply_ends h).mono (fun _ hf => hf.plain) fun _ _ => trivial
  · cases op <;> cases v <;> first | exact oneLine_context _ | exact absurd rfl h

namespace BinaryOp

theorem checkLeft_plain (op : BinaryOp) (a : Value) :
    Ends RunFault.Plain (fun _ => True) (op.checkLeft a) := by
  cases h : op.checkLeft a with
  | ok u => trivial
  | error f =>
    obtain ⟨_, _, _, rfl⟩ := checkLeft_eq_error_iff.mp h
    exact oneLine_context op

theorem apply_plain (op : BinaryOp) (a b : Value) :
    Ends RunFault.Plain (fun _ => True) (op.apply a b) := by
  unfold apply
  split
  · rename_i op a b
    exact ((op.apply_ends a b).mono (fun _ hf => hf.plain) fun _ h => h).bind fun _ _ => trivial
  · trivial
  · trivial
  · trivial
  · trivial
  · exact oneLine_context op

end BinaryOp

theorem Expr.Plain.eval_plain (w : Studio) {e : Expr} (h : e.Plain) :
    Ends RunFault.Plain (fun _ => True) (e.eval w) := by
  induction h with
  | number => trivial
  | bool => trivial
  | text _ => trivial
  | var hx =>
    rw [eval_var]
    split
    · trivial
    · exact hx
  | @unary op e _ ih =>
    rw [eval_unary]
    exact ih.bind fun v _ => op.apply_plain v
  | @binary l r op _ _ ihl ihr =>
    rw [eval_binary]
    refine ihl.bind fun a _ => (op.checkLeft_plain a).bind fun _ _ => ?_
    exact ihr.bind fun b _ => op.apply_plain a b
  | group _ ih =>
    rw [eval_group]
    exact ih
  | @call q args hargs ih =>
    rw [eval_call]
    refine Query.answer_plain w q fun a ha => ?_
    obtain ⟨e, he, rfl⟩ := List.mem_map.mp ha
    exact ⟨(hargs e he).text?, ih e he⟩

/-! ## Faults of statements -/

theorem Command.reports_plain (c : Command) : c.Reports RunFault.Plain where
  overflow := trivial
  direction _ _ := c.oneLine_keyword
  length what hw _ := by
    have hall : ∀ what ∈ ["distance", "radius", "width", "height"], OneLine what := by decide
    exact ⟨c.oneLine_keyword, hall what hw⟩
  size _ := trivial
  place _ _ _ := trivial

theorem Command.perform_plain (c : Command) {args : List Argument} (h : ∀ a ∈ args, a.Plain) :
    Task.FailsWith RunFault.Plain (c.perform args) := by
  by_cases hlen : args.length = c.params.length
  · exact perform_failsWith c.reports_plain (Param.accepts_plain hlen h c.oneLine_keyword)
  · rw [perform_of_length_ne hlen]
    exact Task.failsWith_throw c.oneLine_keyword

/-- A statement that fails quotes words of its own or of the language. -/
theorem Action.Plain.perform_plain {a : Action} (h : a.Plain) :
    Task.FailsWith RunFault.Plain a.perform := by
  cases h with
  | assign he =>
    refine Task.failsWith_get.bind fun w => ?_
    refine (Task.failsWith_of (he.eval_plain w)).bind fun v => ?_
    exact (Task.failsWith_modify _).bind fun _ => Task.failsWith_pure _
  | @command c args hargs =>
    refine Task.failsWith_get.bind fun w => ?_
    refine (c.perform_plain fun a ha => ?_).bind fun _ => Task.failsWith_pure _
    rw [Expr.argumentsOf_eq_map] at ha
    obtain ⟨e, he, rfl⟩ := List.mem_map.mp ha
    exact ⟨(hargs e he).text?, (hargs e he).eval_plain w⟩
  | label _ => exact Task.failsWith_pure _
  | goTo hl he =>
    refine Task.failsWith_get.bind fun w => ?_
    refine (Task.failsWith_of (he.eval_plain w)).bind fun v => ?_
    rcases v with n | (_ | _)
    · refine Task.failsWith_throw ?_
      exact oneLine_append_iff.mpr ⟨oneLine_append_iff.mpr ⟨by decide, hl⟩, by decide⟩
    · exact Task.failsWith_pure _
    · exact Task.failsWith_pure _
  | discard he =>
    refine Task.failsWith_get.bind fun w => ?_
    exact (Task.failsWith_of (he.eval_plain w)).bind fun _ => Task.failsWith_pure _

end Easel
