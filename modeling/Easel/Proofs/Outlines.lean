import Std.Data.String.ToInt
import Easel.Program.Outline
import Easel.Proofs.Diagnostics

/-!
# Easel.Proofs.Outlines

An outline tells its program. If the names and texts of two programs are one line each, the programs
have different outlines unless they are the same, with their lines, types and operators
(`Program.outline_faithful`).

* `Program.outlineLines_eq`: the lines of an outline can be read back from its text, each with its
  depth, because a text of one line that starts with no blank ends where its line does.
* `Expr.eq_of_caption`, `Action.eq_of_caption`: what a line says, and the expressions below it, make
  one expression or statement.
* `Expr.outlineAll_inj`: expressions below each other are told apart by the depth alone, up to a
  line that is less deep.
-/

namespace Easel

/-! ## Reading lines back -/

namespace OutlineLine

/-- The characters of a line before its newline. -/
def chars (l : OutlineLine) : List Char := List.replicate (2 * l.depth) ' ' ++ l.text.toList

/-- The line with the given characters: two blanks for every step in, and then the text. -/
def ofChars (cs : List Char) : OutlineLine :=
  ⟨(cs.takeWhile (· == ' ')).length / 2, String.ofList (cs.dropWhile (· == ' '))⟩

/-- The text is one line and starts with no blank. -/
structure Legible (l : OutlineLine) : Prop where
  oneLine : OneLine l.text
  flush : l.text.toList.head? ≠ some ' '

theorem Legible.newline_not_mem {l : OutlineLine} (h : l.Legible) : '\n' ∉ l.chars := by
  have ht : '\n' ∉ l.text.toList := h.oneLine
  simp [chars, List.mem_replicate, ht]

theorem Legible.ofChars_chars {l : OutlineLine} (h : l.Legible) : ofChars l.chars = l := by
  obtain ⟨depth, text⟩ := l
  have hblank : ∀ c ∈ List.replicate (2 * depth) ' ', (c == ' ') = true := by
    simp [List.mem_replicate]
  have hflush : text.toList.head? ≠ some ' ' := h.flush
  have htext : text.toList.takeWhile (· == ' ') = [] ∧
      text.toList.dropWhile (· == ' ') = text.toList := by
    cases hcs : text.toList with
    | nil => exact ⟨rfl, rfl⟩
    | cons c cs =>
      have hc : ¬ (c == ' ') = true := by simpa [hcs] using hflush
      exact ⟨List.takeWhile_cons_of_neg hc, List.dropWhile_cons_of_neg hc⟩
  simp only [ofChars, chars, List.takeWhile_append_of_pos hblank,
    List.dropWhile_append_of_pos hblank, htext.1, htext.2, List.append_nil,
    List.length_replicate, String.ofList_toList]
  simp

theorem lines_render_append {l : OutlineLine} (h : l.Legible) (cs : List Char) :
    Source.lines (l.render.toList ++ cs) = l.chars :: Source.lines cs := by
  have hsplit : l.render.toList ++ cs = l.chars ++ '\n' :: cs := by simp [render, chars]
  rw [hsplit, Source.lines_append h.newline_not_mem (Source.lines_newline cs), List.append_nil]

/-- The lines of a text are the lines it was joined from, and an empty one behind the last
newline. -/
theorem lines_join {ls : List OutlineLine} (h : ∀ l ∈ ls, l.Legible) :
    Source.lines (String.join (ls.map render)).toList = ls.map chars ++ [[]] := by
  induction ls with
  | nil => rfl
  | cons l ls ih =>
    rw [List.forall_mem_cons] at h
    rw [List.map_cons, String.join_cons, String.toList_append, lines_render_append h.1, ih h.2]
    rfl

end OutlineLine

/-! ## Captions -/

theorem isDigit_of_mem_toString {n : Nat} {c : Char} (h : c ∈ (toString n).toList) :
    c.isDigit = true := by
  rw [Nat.toString_eq_ofList_toDigits, String.toList_ofList] at h
  exact Nat.isDigit_of_mem_toDigits (by decide) (by decide) h

namespace Number

theorem text_injective {m n : Number} (h : m.text = n.text) : m = n :=
  Int64.toInt_inj.mp (Int.repr_injective h)

/-- A number starts with a digit or a sign. -/
theorem exists_text_eq_cons (n : Number) :
    ∃ c cs, n.text.toList = c :: cs ∧ (c = '-' ∨ c.isDigit = true) := by
  unfold text
  cases n.toInt with
  | ofNat m =>
    have hne : (toString m).toList ≠ [] := by
      rw [Nat.toString_eq_ofList_toDigits, String.toList_ofList]
      exact Nat.toDigits_ne_nil
    obtain ⟨c, cs, hcs⟩ := List.exists_cons_of_ne_nil hne
    exact ⟨c, cs, hcs, .inr (isDigit_of_mem_toString (by rw [hcs]; simp))⟩
  | negSucc m => exact ⟨'-', (toString (m + 1)).toList, String.toList_append, .inl rfl⟩

theorem toList_text_ne {n : Number} {cs : List Char} {c : Char} (hs : cs.head? = some c)
    (hc : c ≠ '-' ∧ c.isDigit = false) : n.text.toList ≠ cs := by
  rintro rfl
  obtain ⟨c', cs, hcs, hc'⟩ := n.exists_text_eq_cons
  rw [hcs] at hs
  cases hs
  rcases hc' with hm | hd
  · exact hc.1 hm
  · rw [hc.2] at hd
    cases hd

theorem toList_text_ne_bool (n : Number) (b : Bool) :
    n.text.toList ≠ (Value.bool b).text.toList := by
  cases b with
  | true => exact toList_text_ne rfl (by decide)
  | false => exact toList_text_ne rfl (by decide)

theorem toList_text_ne_quoted (n : Number) (s : String) :
    n.text.toList ≠ '"' :: (s.toList ++ ['"']) :=
  toList_text_ne rfl (by decide)

end Number

theorem Value.bool_text_injective {b b' : Bool}
    (h : (Value.bool b).text = (Value.bool b').text) : b = b' := by
  revert h
  cases b <;> cases b' <;> decide

theorem UnaryOp.symbol_injective {op op' : UnaryOp} (h : op.symbol = op'.symbol) : op = op' := by
  revert h
  cases op <;> cases op' <;> decide

theorem BinaryOp.symbol_injective {op op' : BinaryOp} (h : op.symbol = op'.symbol) : op = op' := by
  have hall : ∀ op ∈ all, ∀ op' ∈ all, op.symbol = op'.symbol → op = op' := by decide
  have hmem : ∀ op : BinaryOp, op ∈ all := by
    rintro (op | op | op | op) <;> cases op <;> decide
  exact hall op (hmem op) op' (hmem op') h

theorem Query.keyword_injective {q q' : Query} (h : q.keyword = q'.keyword) : q = q' := by
  have := ofKeyword?_keyword q
  rw [h, ofKeyword?_keyword] at this
  exact (Option.some.inj this).symm

theorem Command.keyword_injective {c c' : Command} (h : c.keyword = c'.keyword) : c = c' := by
  have := ofKeyword?_keyword c
  rw [h, ofKeyword?_keyword] at this
  exact (Option.some.inj this).symm

namespace Expr

/-- The expressions right below an expression. -/
def operands : Expr → List Expr
  | .unary _ e => [e]
  | .binary l _ r => [l, r]
  | .group e => [e]
  | .call _ args => args
  | _ => []

theorem operands_induct {P : Expr → Prop} (h : ∀ e, (∀ c ∈ e.operands, P c) → P e) (e : Expr) :
    P e := by
  induction e using Expr.induct with
  | number n => exact h _ (by simp [operands])
  | bool b => exact h _ (by simp [operands])
  | text s => exact h _ (by simp [operands])
  | var x => exact h _ (by simp [operands])
  | unary op e ih => exact h _ (by simpa [operands] using ih)
  | binary l op r ihl ihr => exact h _ (by simpa [operands] using ⟨ihl, ihr⟩)
  | group e ih => exact h _ (by simpa [operands] using ih)
  | call q args ih => exact h _ ih

theorem outline_eq (depth : Nat) (e : Expr) :
    e.outline depth = ⟨depth, e.caption⟩ :: outlineAll (depth + 1) e.operands := by
  cases e with
  | unary op e => simp [outline, outlineAll, operands]
  | binary l op r => simp [outline, outlineAll, operands]
  | group e => simp [outline, outlineAll, operands]
  | _ => rfl

theorem outlineAll_eq_flatMap (depth : Nat) (es : List Expr) :
    outlineAll depth es = es.flatMap (outline depth) := by
  induction es with
  | nil => rfl
  | cons e es ih => rw [outlineAll, ih, List.flatMap_cons]

/-- The first word of a caption and its operands leave no choice. -/
theorem eq_of_caption {e e' : Expr} (hc : e.caption = e'.caption)
    (ho : e.operands = e'.operands) : e = e' := by
  have h := congrArg String.toList hc
  cases e with
  | number n =>
    cases e' with
    | number n' =>
      have hn : n.text = n'.text := by simpa [caption, String.toList_inj] using h
      rw [Number.text_injective hn]
    | bool b => exact absurd (by simpa [caption] using h) (n.toList_text_ne_bool b)
    | text s => exact absurd (by simpa [caption] using h) (n.toList_text_ne_quoted s)
    | _ => simp [caption] at h
  | bool b =>
    cases e' with
    | number n => exact absurd (by simpa [caption] using h.symm) (n.toList_text_ne_bool b)
    | bool b' =>
      have hb : (Value.bool b).text = (Value.bool b').text := by
        simpa [caption, String.toList_inj] using h
      rw [Value.bool_text_injective hb]
    | text s => cases b <;> simp [caption, Value.text] at h
    | _ => simp [caption] at h
  | text s =>
    cases e' with
    | number n => exact absurd (by simpa [caption] using h.symm) (n.toList_text_ne_quoted s)
    | bool b => cases b <;> simp [caption, Value.text] at h
    | text s' =>
      have hs : s = s' := by simpa [caption, String.toList_inj] using h
      rw [hs]
    | _ => simp [caption] at h
  | var x =>
    cases e' with
    | var x' =>
      have hx : x = x' := by simpa [caption, String.toList_inj] using h
      rw [hx]
    | _ => simp [caption] at h
  | unary op e =>
    cases e' with
    | unary op' e' =>
      have hop : op.symbol = op'.symbol := by simpa [caption, String.toList_inj] using h
      rw [UnaryOp.symbol_injective hop, List.singleton_inj.mp ho]
    | _ => simp [caption] at h
  | binary l op r =>
    cases e' with
    | binary l' op' r' =>
      have hop : op.symbol = op'.symbol := by simpa [caption, String.toList_inj] using h
      obtain ⟨rfl, rfl⟩ : l = l' ∧ r = r' := by simpa [operands] using ho
      rw [BinaryOp.symbol_injective hop]
    | _ => simp [caption] at h
  | group e =>
    cases e' with
    | group e' => rw [List.singleton_inj.mp ho]
    | _ => simp [caption] at h
  | call q args =>
    cases e' with
    | call q' args' =>
      have hq : q.keyword = q'.keyword := by simpa [caption, String.toList_inj] using h
      have hargs : args = args' := ho
      rw [Query.keyword_injective hq, hargs]
    | _ => simp [caption] at h

end Expr

/-- The type in brackets behind a name does not run into it. -/
theorem append_ty_inj {x x' : List Char} {ty ty' : Ty}
    (h : x ++ (" (" ++ ty.text ++ ")").toList = x' ++ (" (" ++ ty'.text ++ ")").toList) :
    x = x' ∧ ty = ty' := by
  have hrev := congrArg List.reverse h
  cases ty <;> cases ty' <;> simp [Ty.text] at h hrev ⊢ <;> exact h

namespace Action

theorem eq_of_caption {a a' : Action} (hc : a.caption = a'.caption) (he : a.exprs = a'.exprs) :
    a = a' := by
  have h := congrArg String.toList hc
  cases a with
  | assign x ty e =>
    cases a' with
    | assign x' ty' e' =>
      obtain ⟨hx, rfl⟩ : x.toList = x'.toList ∧ ty = ty' :=
        append_ty_inj (by simpa [caption] using h)
      rw [String.toList_inj.mp hx, List.singleton_inj.mp he]
    | _ => simp [caption] at h
  | command c args =>
    cases a' with
    | command c' args' =>
      have hk : c.keyword = c'.keyword := by simpa [caption, String.toList_inj] using h
      have hargs : args = args' := he
      rw [Command.keyword_injective hk, hargs]
    | _ => simp [caption] at h
  | label l =>
    cases a' with
    | label l' =>
      have hl : l = l' := by simpa [caption, String.toList_inj] using h
      rw [hl]
    | _ => simp [caption] at h
  | goTo l e =>
    cases a' with
    | goTo l' e' =>
      have hl : l = l' := by simpa [caption, String.toList_inj] using h
      rw [hl, List.singleton_inj.mp he]
    | _ => simp [caption] at h
  | discard e =>
    cases a' with
    | discard e' => rw [List.singleton_inj.mp he]
    | _ => simp [caption] at h

end Action

/-- A number and the colon behind it are read back as far as the digits go. -/
theorem toString_append_inj {m n : Nat} {xs ys : List Char}
    (h : (toString m).toList ++ ':' :: xs = (toString n).toList ++ ':' :: ys) :
    m = n ∧ xs = ys := by
  have hdigits : ∀ (k : Nat) (zs : List Char),
      ((toString k).toList ++ ':' :: zs).takeWhile Char.isDigit = (toString k).toList := by
    intro k zs
    rw [List.takeWhile_append_of_pos fun c hc => isDigit_of_mem_toString hc,
      List.takeWhile_cons_of_neg (by decide), List.append_nil]
  have hmn : (toString m).toList = (toString n).toList := by
    rw [← hdigits m xs, h, hdigits n ys]
  rw [hmn] at h
  refine ⟨Nat.repr_injective (String.toList_inj.mp hmn), ?_⟩
  exact (List.cons.inj (List.append_cancel_left h)).2

theorem Stmt.eq_of_caption {s s' : Stmt}
    (hc : toString s.line ++ ": " ++ s.action.caption =
      toString s'.line ++ ": " ++ s'.action.caption)
    (he : s.action.exprs = s'.action.exprs) : s = s' := by
  obtain ⟨line, a⟩ := s
  obtain ⟨line', a'⟩ := s'
  obtain ⟨rfl, ha⟩ : line = line' ∧ ' ' :: a.caption.toList = ' ' :: a'.caption.toList := by
    refine toString_append_inj ?_
    simpa using congrArg String.toList hc
  rw [Action.eq_of_caption (String.toList_inj.mp (List.cons.inj ha).2) he]

/-! ## Trees by their depths -/

/-- The lines are over or go on less deep than `depth`. -/
def Shallow (depth : Nat) (ls : List OutlineLine) : Prop := ∀ l ∈ ls.head?, l.depth < depth

theorem head?_outlineAll_append (depth : Nat) (e : Expr) (es : List Expr)
    (rest : List OutlineLine) :
    (Expr.outlineAll depth (e :: es) ++ rest).head? = some ⟨depth, e.caption⟩ := by
  rw [Expr.outlineAll, Expr.outline_eq]
  rfl

theorem not_shallow_outlineAll_append {depth : Nat} {e : Expr} {es : List Expr}
    {rest : List OutlineLine} : ¬ Shallow depth (Expr.outlineAll depth (e :: es) ++ rest) :=
  fun h => Nat.lt_irrefl depth (h _ (head?_outlineAll_append depth e es rest))

theorem shallow_outlineAll_append {depth : Nat} {rest : List OutlineLine} (es : List Expr)
    (h : Shallow depth rest) : Shallow (depth + 1) (Expr.outlineAll depth es ++ rest) := by
  cases es with
  | nil => exact fun l hl => Nat.lt_succ_of_lt (h l hl)
  | cons e es =>
    intro l hl
    rw [head?_outlineAll_append] at hl
    cases hl
    exact Nat.lt_succ_self depth

namespace Expr

/-- The lines of an expression tell it, and where they end. -/
def Told (e : Expr) : Prop :=
  ∀ {e' : Expr} {depth : Nat} {rest rest' : List OutlineLine},
    e.outline depth ++ rest = e'.outline depth ++ rest' →
    Shallow (depth + 1) rest → Shallow (depth + 1) rest' → e = e' ∧ rest = rest'

theorem outlineAll_inj_of_told {es : List Expr} (hes : ∀ e ∈ es, e.Told) {depth : Nat}
    {rest rest' : List OutlineLine} (hr : Shallow depth rest) (hr' : Shallow depth rest') :
    ∀ {es' : List Expr}, outlineAll depth es ++ rest = outlineAll depth es' ++ rest' →
      es = es' ∧ rest = rest' := by
  induction es with
  | nil =>
    intro es' h
    cases es' with
    | nil => exact ⟨rfl, h⟩
    | cons e' es' =>
      -- The first line of `e'` would be the first of `rest`, and that is less deep.
      obtain rfl : rest = outlineAll depth (e' :: es') ++ rest' := h
      exact absurd hr not_shallow_outlineAll_append
  | cons e es ih =>
    intro es' h
    rw [List.forall_mem_cons] at hes
    cases es' with
    | nil =>
      obtain rfl : outlineAll depth (e :: es) ++ rest = rest' := h
      exact absurd hr' not_shallow_outlineAll_append
    | cons e' es' =>
      rw [outlineAll, outlineAll, List.append_assoc, List.append_assoc] at h
      obtain ⟨he, hmore⟩ := hes.1 h (shallow_outlineAll_append es hr)
        (shallow_outlineAll_append es' hr')
      obtain ⟨htail, hrest⟩ := ih hes.2 hmore
      exact ⟨by rw [he, htail], hrest⟩

theorem told (e : Expr) : e.Told := by
  induction e using operands_induct with
  | _ e ih =>
    intro e' depth rest rest' h hr hr'
    rw [outline_eq, outline_eq, List.cons_append, List.cons_append] at h
    obtain ⟨hline, h⟩ := List.cons.inj h
    obtain ⟨ho, rfl⟩ := outlineAll_inj_of_told ih hr hr' h
    exact ⟨eq_of_caption (congrArg OutlineLine.text hline) ho, rfl⟩

/-- Expressions below each other are told by their lines, up to a line that is less deep. -/
theorem outlineAll_inj {es es' : List Expr} {depth : Nat} {rest rest' : List OutlineLine}
    (hr : Shallow depth rest) (hr' : Shallow depth rest')
    (h : outlineAll depth es ++ rest = outlineAll depth es' ++ rest') : es = es' ∧ rest = rest' :=
  outlineAll_inj_of_told (fun e _ => e.told) hr hr' h

end Expr

namespace Program

theorem shallow_outlineLines (p : Program) : Shallow 1 p.outlineLines := by
  cases p with
  | nil => simp [Shallow, outlineLines]
  | cons s p =>
    intro l hl
    cases hl
    exact Nat.zero_lt_one

theorem outlineLines_cons (s : Stmt) (p : Program) :
    outlineLines (s :: p) = ⟨0, toString s.line ++ ": " ++ s.action.caption⟩ ::
      (Expr.outlineAll 1 s.action.exprs ++ p.outlineLines) := by
  rw [outlineLines, List.flatMap_cons, Stmt.outline, List.cons_append]
  rfl

theorem outlineLines_injective {p q : Program} (h : p.outlineLines = q.outlineLines) : p = q := by
  induction p generalizing q with
  | nil =>
    cases q with
    | nil => rfl
    | cons s q => rw [outlineLines_cons] at h; cases h
  | cons s p ih =>
    cases q with
    | nil => rw [outlineLines_cons] at h; cases h
    | cons s' q =>
      rw [outlineLines_cons, outlineLines_cons] at h
      obtain ⟨hline, h⟩ := List.cons.inj h
      obtain ⟨he, h⟩ := Expr.outlineAll_inj (shallow_outlineLines p) (shallow_outlineLines q) h
      rw [Stmt.eq_of_caption (congrArg OutlineLine.text hline) he, ih h]

end Program

/-! ## Programs whose words are one line each -/

theorem Expr.Plain.operands {e : Expr} (h : e.Plain) : ∀ c ∈ e.operands, c.Plain := by
  cases h with
  | unary h | group h => simpa [Expr.operands] using h
  | binary hl hr => simpa [Expr.operands] using ⟨hl, hr⟩
  | call hargs => exact hargs
  | _ => simp [Expr.operands]

theorem Expr.Plain.oneLine_caption {e : Expr} (h : e.Plain) : OneLine e.caption := by
  cases h with
  | @number n => exact oneLine_append_iff.mpr ⟨by decide, n.oneLine_text⟩
  | @bool b => cases b <;> decide
  | text hs =>
    exact oneLine_append_iff.mpr ⟨oneLine_append_iff.mpr ⟨by decide, hs⟩, by decide⟩
  | var hx => exact oneLine_append_iff.mpr ⟨by decide, hx⟩
  | @unary op =>
    have hop : OneLine op.symbol := by cases op <;> decide
    exact oneLine_append_iff.mpr ⟨by decide, hop⟩
  | @binary _ _ op => exact oneLine_append_iff.mpr ⟨by decide, op.oneLine_symbol⟩
  | group => show OneLine "Grouping"; decide
  | @call q => exact oneLine_append_iff.mpr ⟨by decide, q.oneLine_keyword⟩

theorem Expr.Plain.legible (e : Expr) :
    e.Plain → ∀ depth, ∀ l ∈ e.outline depth, l.Legible := by
  induction e using operands_induct with
  | _ e ih =>
    intro h depth
    have hflush : e.caption.toList.head? ≠ some ' ' := by cases e <;> simp [caption]
    rw [outline_eq, outlineAll_eq_flatMap, List.forall_mem_cons]
    refine ⟨⟨h.oneLine_caption, hflush⟩, fun l hl => ?_⟩
    obtain ⟨c, hc, hl⟩ := List.mem_flatMap.mp hl
    exact ih c hc (h.operands c hc) (depth + 1) l hl

theorem Action.Plain.exprs {a : Action} (h : a.Plain) : ∀ e ∈ a.exprs, e.Plain := by
  cases h with
  | assign h | discard h => simpa [Action.exprs] using h
  | command hargs => exact hargs
  | label => simp [Action.exprs]
  | goTo _ h => simpa [Action.exprs] using h

theorem Action.Plain.oneLine_caption {a : Action} (h : a.Plain)
    (hx : ∀ x ty e, a = .assign x ty e → OneLine x) : OneLine a.caption := by
  cases h with
  | @assign x ty e =>
    have hx : OneLine x := hx x ty e rfl
    simp only [caption, oneLine_append_iff, hx, ty.oneLine_text]
    decide
  | @command c => exact oneLine_append_iff.mpr ⟨by decide, c.oneLine_keyword⟩
  | label hl => exact oneLine_append_iff.mpr ⟨by decide, hl⟩
  | goTo hl _ =>
    exact oneLine_append_iff.mpr ⟨oneLine_append_iff.mpr ⟨by decide, hl⟩, by decide⟩
  | discard => show OneLine "Expression"; decide

/-- Every name, label and text of the program is one line. -/
def Program.Plain (p : Program) : Prop :=
  ∀ st ∈ p, st.action.Plain ∧ ∀ x ty e, st.action = .assign x ty e → OneLine x

theorem Stmt.legible {st : Stmt} (h : st.action.Plain)
    (hx : ∀ x ty e, st.action = .assign x ty e → OneLine x) : ∀ l ∈ st.outline, l.Legible := by
  have hone : OneLine (toString st.line ++ ": " ++ st.action.caption) :=
    oneLine_append_iff.mpr
      ⟨oneLine_append_iff.mpr ⟨oneLine_nat st.line, by decide⟩, h.oneLine_caption hx⟩
  have hflush : (toString st.line ++ ": " ++ st.action.caption).toList.head? ≠ some ' ' := by
    rw [String.toList_append, String.toList_append]
    cases hcs : (toString st.line).toList with
    | nil => simp
    | cons c cs =>
      have hd : c.isDigit = true := isDigit_of_mem_toString (hcs ▸ List.mem_cons_self)
      have hc : c ≠ ' ' := by rintro rfl; cases hd
      simpa using hc
  rw [outline, Expr.outlineAll_eq_flatMap, List.forall_mem_cons]
  refine ⟨⟨hone, hflush⟩, fun l hl => ?_⟩
  obtain ⟨e, he, hl⟩ := List.mem_flatMap.mp hl
  exact (h.exprs e he).legible e 1 l hl

namespace Program

/-- The lines of an outline, read back from its text. -/
theorem outlineLines_eq {p : Program} (h : p.Plain) :
    p.outlineLines = (Source.lines p.outline.toList).dropLast.map OutlineLine.ofChars := by
  have hlegible : ∀ l ∈ p.outlineLines, l.Legible := by
    intro l hl
    obtain ⟨st, hst, hl⟩ := List.mem_flatMap.mp hl
    exact Stmt.legible (h st hst).1 (h st hst).2 l hl
  rw [outline, OutlineLine.lines_join hlegible, List.dropLast_concat, List.map_map]
  symm
  calc p.outlineLines.map (OutlineLine.ofChars ∘ OutlineLine.chars)
      = p.outlineLines.map id := List.map_congr_left fun l hl => (hlegible l hl).ofChars_chars
    _ = p.outlineLines := List.map_id _

end Program

/-! ## Programs of a text -/

theorem Laid.exists_covers {p : Program} {ts : List Token} (h : Laid p ts) :
    ∀ st ∈ p, ∃ us, (∀ t ∈ us, t ∈ ts) ∧ st.Covers us := by
  induction h with
  | blank => simp
  | @last bs us st _ hc =>
    intro st' hst
    obtain rfl := List.mem_singleton.mp hst
    exact ⟨us, fun t ht => by simp [ht], hc⟩
  | @line bs us rest b st p _ hc _ _ ih =>
    intro st' hst
    rcases List.mem_cons.mp hst with rfl | hst
    · exact ⟨us, fun t ht => by simp [ht], hc⟩
    · obtain ⟨us', hsub, hc'⟩ := ih st' hst
      exact ⟨us', fun t ht => by simp [hsub t ht], hc'⟩

namespace Program

/-- What a scan has cut off as a name is one line, and so is what it has put between quotes. -/
theorem plain_of_ofText {text : String} {p : Program} (h : ofText text = .ok p) : p.Plain := by
  obtain ⟨_, _, hplaced⟩ := placed_of_ofText h
  obtain ⟨ts, hscan, hparse⟩ := exists_scan_of_ofText h
  obtain ⟨body, line, rfl, hbody⟩ := Token.scanned_of_scan hscan
  have hlaid := (parse_eq_ok_iff_laid hbody line).mp hparse
  refine fun st hst => ⟨hplaced.plain st hst, fun x ty e ha => ?_⟩
  obtain ⟨us, hsub, hc⟩ := hlaid.exists_covers st hst
  have hkinds := hc.tokens
  rw [ha] at hkinds
  obtain ⟨t, _, rfl, hk, _⟩ := List.map_eq_cons_iff.mp hkinds
  exact (hbody t (hsub t (by simp))).oneLine_name hk

/-- Programs whose words are one line each are told apart by their outlines, and the programs that
are read from a text are such programs. -/
theorem outline_faithful :
    (∀ p q : Program, p.Plain → q.Plain → p.outline = q.outline → p = q) ∧
      ∀ (text : String) (p : Program), ofText text = .ok p → p.Plain := by
  refine ⟨fun p q hp hq h => ?_, fun text p => plain_of_ofText⟩
  refine outlineLines_injective ?_
  rw [outlineLines_eq hp, outlineLines_eq hq, h]

/-- Two texts with the same outline have the same program. The other two programs have the same
captions in the same order, and only the depth says whether `y` is an argument of the first query or
of the second. -/
theorem outline_faithful_to_depth :
    ∃ p q r r' : Program, ofText "x <- 1 - y" = .ok p ∧ ofText "x<-1-y" = .ok q ∧
      p.Plain ∧ q.Plain ∧ p.outline = q.outline ∧ p = q ∧
      r = [⟨1, .discard (.call .isBrushSize [.call .actualX [], .var "y"])⟩] ∧
      r' = [⟨1, .discard (.call .isBrushSize [.call .actualX [.var "y"]])⟩] ∧
      r.outlineLines.map OutlineLine.text = r'.outlineLines.map OutlineLine.text ∧
      r.Plain ∧ r'.Plain ∧ r.outline ≠ r'.outline := by
  let p : Program := [⟨1, .assign "x" .number (.binary (.number 1) (.arith .sub) (.var "y"))⟩]
  let r : Program := [⟨1, .discard (.call .isBrushSize [.call .actualX [], .var "y"])⟩]
  let r' : Program := [⟨1, .discard (.call .isBrushSize [.call .actualX [.var "y"]])⟩]
  let ts : List Token :=
    [⟨.name "x", "x", 1⟩, ⟨.arrow, "<-", 1⟩, ⟨.number 1, "1", 1⟩,
      ⟨.operator (.arith .sub), "-", 1⟩, ⟨.name "y", "y", 1⟩, ⟨.endOfInput, "", 1⟩]
  have hscan : Token.scan "x <- 1 - y" = .ok ts := rfl
  have hscan' : Token.scan "x<-1-y" = .ok ts := rfl
  have hparse : parse ts = .ok p := rfl
  have hp : ofText "x <- 1 - y" = .ok p := by rw [ofText_of_scan hscan, hparse]
  have hq : ofText "x<-1-y" = .ok p := by rw [ofText_of_scan hscan', hparse]
  have hy : (Expr.var "y").Plain := .var (by decide)
  have hr : r.Plain := by
    intro st hst
    obtain rfl := List.mem_singleton.mp hst
    exact ⟨.discard (.call (by simpa using ⟨.call (by simp), hy⟩)), by simp⟩
  have hr' : r'.Plain := by
    intro st hst
    obtain rfl := List.mem_singleton.mp hst
    exact ⟨.discard (.call (by simpa using .call (by simpa using hy))), by simp⟩
  have hne : r ≠ r' := by simp [r, r']
  obtain ⟨hfaithful, htext⟩ := outline_faithful
  exact ⟨p, p, r, r', hp, hq, htext _ p hp, htext _ p hq, rfl,
    hfaithful p p (htext _ p hp) (htext _ p hq) rfl, rfl, rfl, rfl, hr, hr',
    fun h => hne (hfaithful r r' hr hr' h)⟩

-- A name with a newline can pass for two statements.
example : outline [⟨1, .label "a\n2: Label b"⟩] = outline [⟨1, .label "a"⟩, ⟨2, .label "b"⟩] := rfl

end Program
end Easel
