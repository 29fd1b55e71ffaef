import Easel.Proofs.LineLocal
import Easel.Proofs.Sequence

/-!
# Easel.Proofs.LineNumbers

Lines are for diagnostics only. Tokens that differ in nothing but their lines are parsed alike, and
programs that differ in nothing but theirs run alike, step by step (`Program.lines_mean_nothing`).

Both halves compare two runs. The parser commutes with any renumbering of lines, so tokens that are
alike are brought to one line and parsed there. The label check and the run are compared directly:
`Agree` for what succeeds or is reported, `Outcome.Alike` for how a step or a run ends.
-/

namespace Easel

variable {α β : Type}

/-- What a token is, wherever it stands. -/
def Token.content (t : Token) : TokenKind × String := (t.kind, t.lexeme)

/-- What the statements of a program do, wherever they stand. -/
def Program.actions (p : Program) : List Action := p.map Stmt.action

/-- The faults differ in nothing but the lines that they name. -/
inductive Fault.Alike : Fault → Fault → Prop where
  | refl (f : Fault) : Alike f f
  | duplicateLabel (l : String) (m n : Nat) :
      Alike (.static (.duplicateLabel l m)) (.static (.duplicateLabel l n))

/-- The outcomes differ in nothing but lines; in particular the studio is the same. -/
inductive Outcome.Alike : Outcome → Outcome → Prop where
  | refl (o : Outcome) : Alike o o
  | failed {d d' : Diagnostic} (w : Studio) : d.fault.Alike d'.fault →
      Alike (.failed d w) (.failed d' w)

/-- Both succeed, with values that are related, or both fail, with faults that are alike. -/
inductive Agree (R : α → β → Prop) : Except Diagnostic α → Except Diagnostic β → Prop where
  | ok {a : α} {b : β} : R a b → Agree R (.ok a) (.ok b)
  | error {d d' : Diagnostic} : d.fault.Alike d'.fault → Agree R (.error d) (.error d')

/-! ## Parsing -/

/-- Tokens that are alike are the same when they stand on one line. -/
theorem Token.map_renumber_eq {ts us : List Token} (h : ts.map content = us.map content)
    (line : Nat) : ts.map (renumber fun _ => line) = us.map (renumber fun _ => line) := by
  have hcontent : (renumber fun _ => line) = (fun c => ⟨c.1, c.2, line⟩) ∘ content := rfl
  rw [hcontent, ← List.map_map, h, List.map_map]

@[simp] theorem Program.actions_renumber (f : Nat → Nat) (p : Program) :
    (p.renumber f).actions = p.actions := by
  simp [actions, renumber, Stmt.renumber]

theorem Program.parse_agree {ts us : List Token} (h : ts.map Token.content = us.map Token.content) :
    Agree (fun p q => p.actions = q.actions) (parse ts) (parse us) := by
  let f : Nat → Nat := fun _ => 1
  have heq : ((parse ts).map (renumber f)).mapError (Diagnostic.renumber f) =
      ((parse us).map (renumber f)).mapError (Diagnostic.renumber f) := by
    rw [← parse_renumber fun _ => rfl, ← parse_renumber fun _ => rfl, Token.map_renumber_eq h]
  cases hp : parse ts with
  | ok p =>
    cases hq : parse us with
    | ok q =>
      rw [hp, hq] at heq
      have hpq : p.renumber f = q.renumber f := Except.ok.inj heq
      refine .ok ?_
      rw [← actions_renumber f p, hpq, actions_renumber]
    | error d =>
      rw [hp, hq] at heq
      cases heq
  | error d =>
    cases hq : parse us with
    | ok q =>
      rw [hp, hq] at heq
      cases heq
    | error d' =>
      rw [hp, hq] at heq
      have hd : d.renumber f = d'.renumber f := Except.error.inj heq
      have hfault : d.fault = d'.fault := (Diagnostic.mk.inj hd).2
      refine .error ?_
      rw [hfault]
      exact .refl _

/-! ## Labels -/

namespace LabelTable

/-- The labels with their places, without their lines. -/
def places (t : LabelTable) : List (String × Nat) := t.declarations.map fun d => (d.label, d.place)

theorem place?_eq (t : LabelTable) (l : String) :
    t.place? l = (t.places.find? fun e => e.1 == l).map Prod.snd := by
  simp only [place?, find?, places, List.find?_map, Option.map_map]
  rfl

theorem place?_congr {t t' : LabelTable} (h : t.places = t'.places) (l : String) :
    t.place? l = t'.place? l := by
  rw [place?_eq, place?_eq, h]

theorem find?_congr {t t' : LabelTable} (h : t.places = t'.places) (l : String) :
    (t.find? l = none ∧ t'.find? l = none) ∨
      ∃ d d', t.find? l = some d ∧ t'.find? l = some d' := by
  have hp := place?_congr h l
  simp only [place?] at hp
  cases hl : t.find? l with
  | none =>
    rw [hl] at hp
    exact .inl ⟨rfl, Option.map_eq_none_iff.mp hp.symm⟩
  | some d =>
    rw [hl] at hp
    obtain ⟨d', hl', _⟩ := Option.map_eq_some_iff.mp hp.symm
    exact .inr ⟨d, d', rfl, hl'⟩

theorem places_insert (t : LabelTable) (d : Declaration) :
    (t.insert d).places = t.places ++ [(d.label, d.place)] := by
  simp [places, insert]

theorem collect_agree {p : Program} :
    ∀ {q : Program} {t t' : LabelTable} {place : Nat}, p.actions = q.actions →
      t.places = t'.places →
      Agree (fun u u' => u.places = u'.places) (t.collect place p) (t'.collect place q) := by
  induction p with
  | nil =>
    intro q t t' place h ht
    obtain rfl : q = [] := List.map_eq_nil_iff.mp h.symm
    exact .ok ht
  | cons s rest ih =>
    intro q t t' place h ht
    cases q with
    | nil => cases h
    | cons s' rest' =>
      obtain ⟨hs, hrest⟩ := List.cons_eq_cons.mp h
      rw [collect_cons, collect_cons, ← hs]
      cases s.action.label? with
      | none => exact ih hrest ht
      | some l =>
        obtain ⟨hl, hl'⟩ | ⟨d, d', hl, hl'⟩ := find?_congr ht l
        · simp only [hl, hl']
          exact ih hrest (by rw [places_insert, places_insert, ht])
        · simp only [hl, hl']
          exact .error (.duplicateLabel l d.line d'.line)

theorem checkJumps_agree {p : Program} {t t' : LabelTable} (ht : t.places = t'.places) :
    ∀ {q : Program}, p.actions = q.actions →
      Agree (fun _ _ => True) (t.checkJumps p) (t'.checkJumps q) := by
  induction p with
  | nil =>
    intro q h
    obtain rfl : q = [] := List.map_eq_nil_iff.mp h.symm
    exact .ok trivial
  | cons s rest ih =>
    intro q h
    cases q with
    | nil => cases h
    | cons s' rest' =>
      obtain ⟨hs, hrest⟩ := List.cons_eq_cons.mp h
      rw [checkJumps_cons, checkJumps_cons, ← hs]
      cases s.action.target? with
      | none => exact ih hrest
      | some l =>
        obtain ⟨hl, hl'⟩ | ⟨d, d', hl, hl'⟩ := find?_congr ht l
        · simp only [hl, hl']
          exact .error (.refl _)
        · simp only [hl, hl']
          exact ih hrest

end LabelTable

theorem Program.labels_agree {p q : Program} (h : p.actions = q.actions) :
    Agree (fun t t' => t.places = t'.places) p.labels q.labels := by
  have hcollect : Agree (fun t t' => t.places = t'.places) (LabelTable.collect ⟨[]⟩ 0 p)
      (LabelTable.collect ⟨[]⟩ 0 q) := LabelTable.collect_agree h rfl
  unfold labels
  generalize LabelTable.collect ⟨[]⟩ 0 p = x, LabelTable.collect ⟨[]⟩ 0 q = y at hcollect ⊢
  cases hcollect with
  | error hd => exact .error hd
  | @ok t t' ht =>
    have hjumps := LabelTable.checkJumps_agree ht h
    simp only
    generalize t.checkJumps p = x, t'.checkJumps q = y at hjumps ⊢
    cases hjumps with
    | error hd => exact .error hd
    | ok _ => exact .ok ht

/-! ## Runs -/

namespace Program

variable {p q : Program} {t t' : LabelTable}

/-- One step. Only the diagnostic of a statement that fails has a line in it. -/
theorem step_alike (h : p.actions = q.actions) (ht : t.places = t'.places) (c : Config) :
    (p.step t c).Alike (q.step t' c) := by
  have hget : p[c.place]?.map Stmt.action = q[c.place]?.map Stmt.action := by
    rw [← List.getElem?_map, ← List.getElem?_map]
    exact congrArg (·[c.place]?) h
  unfold step
  cases hp : p[c.place]? with
  | none =>
    rw [hp] at hget
    rw [Option.map_eq_none_iff.mp hget.symm]
    exact .refl _
  | some s =>
    rw [hp] at hget
    obtain ⟨s', hq, hs⟩ := Option.map_eq_some_iff.mp hget.symm
    rw [hq]
    simp only [Stmt.perform, EStateM.adaptExcept, hs]
    cases s.action.perform c.studio with
    | error f w => exact .failed w (.refl _)
    | ok f w =>
      cases f with
      | next => exact .refl _
      | jump l =>
        simp only [LabelTable.place?_congr ht l]
        exact .refl _

theorem run_alike (h : p.actions = q.actions) (ht : t.places = t'.places) (fuel : Nat) :
    ∀ c : Config, Option.Rel Outcome.Alike (p.run t fuel c) (q.run t' fuel c) := by
  induction fuel with
  | zero => intro c; exact .none
  | succ fuel ih =>
    intro c
    have hstep := step_alike h ht c
    simp only [run]
    generalize p.step t c = o, q.step t' c = o' at hstep ⊢
    cases hstep with
    | refl o =>
      cases o with
      | next c' => exact ih c'
      | finished w => exact .some (.refl _)
      | failed d w => exact .some (.refl _)
      | stray l w => exact .some (.refl _)
    | failed w hd => exact .some (.failed w hd)

theorem execute_alike (h : p.actions = q.actions) (fuel : Nat) (w : Studio) :
    Option.Rel Outcome.Alike (p.execute fuel w) (q.execute fuel w) := by
  have hlabels := labels_agree h
  unfold execute
  generalize p.labels = x, q.labels = y at hlabels ⊢
  cases hlabels with
  | error hd => exact .some (.failed w hd)
  | ok ht => exact run_alike h ht fuel _

/-- Tokens that are alike but for their lines are both parsed, and to programs that are alike but
for theirs, or both refused, for faults that are alike but for theirs. And programs that are alike
but for their lines, executed in one studio, both run forever or both come to an end, and the ends
are alike but for the lines of a fault. -/
theorem lines_mean_nothing :
    (∀ ts us : List Token, ts.map Token.content = us.map Token.content →
      Agree (fun p q => p.actions = q.actions) (parse ts) (parse us)) ∧
    (∀ p q : Program, p.actions = q.actions → ∀ w : Studio,
      (p.Diverges w ∧ q.Diverges w) ∨ ∃ o o', p.Halts w o ∧ q.Halts w o' ∧ o.Alike o') := by
  refine ⟨fun ts us h => parse_agree h, fun p q h w => ?_⟩
  by_cases hd : p.Diverges w
  · refine .inl ⟨hd, fun fuel => ?_⟩
    have hrel := execute_alike h fuel w
    rw [hd fuel] at hrel
    cases hq : q.execute fuel w with
    | none => rfl
    | some o => rw [hq] at hrel; cases hrel
  · obtain ⟨o, fuel, ho⟩ := not_diverges_iff.mp hd
    have hrel := execute_alike h fuel w
    rw [ho] at hrel
    cases hq : q.execute fuel w with
    | none => rw [hq] at hrel; cases hrel
    | some o' =>
      rw [hq] at hrel
      cases hrel with
      | some halike => exact .inr ⟨o, o', ⟨fuel, ho⟩, ⟨fuel, hq⟩, halike⟩

/-- A label declared twice, on two lines in order or in disorder: the tokens are parsed alike, and
both programs are refused before they run, for a fault in which either line is another one. -/
theorem lines_mean_nothing_to_labels :
    ∃ (ts us : List Token) (p q : Program) (o o' : Outcome),
      ts.map Token.content = us.map Token.content ∧ parse ts = .ok p ∧ parse us = .ok q ∧
      p.actions = q.actions ∧ p.Halts (.blank 8) o ∧ q.Halts (.blank 8) o' ∧ o.Alike o' ∧
      o = .failed ⟨2, .static (.duplicateLabel "on" 1)⟩ (.blank 8) ∧
      o' = .failed ⟨3, .static (.duplicateLabel "on" 5)⟩ (.blank 8) := by
  let tokens (a b c : Nat) : List Token :=
    [⟨.name "on", "on", a⟩, ⟨.newLine, "\n", b⟩, ⟨.name "on", "on", c⟩]
  let program (a c : Nat) : Program := [⟨a, .label "on"⟩, ⟨c, .label "on"⟩]
  have hp : parse (tokens 1 1 2) = .ok (program 1 2) := rfl
  have hq : parse (tokens 5 4 3) = .ok (program 5 3) := rfl
  have hactions : (program 1 2).actions = (program 5 3).actions := by
    have hagree := lines_mean_nothing.1 (tokens 1 1 2) (tokens 5 4 3) rfl
    rw [hp, hq] at hagree
    cases hagree with
    | ok h => exact h
  obtain ⟨hd, _⟩ | ⟨o, o', ⟨fuel, ho⟩, ⟨fuel', ho'⟩, halike⟩ :=
    lines_mean_nothing.2 _ _ hactions (.blank 8)
  · cases hd 0
  · exact ⟨tokens 1 1 2, tokens 5 4 3, _, _, o, o', rfl, hp, hq, hactions, ⟨fuel, ho⟩,
      ⟨fuel', ho'⟩, halike, (Option.some.inj ho).symm, (Option.some.inj ho').symm⟩

end Program
end Easel
