import Easel.Proofs.Effects
import Easel.Proofs.Sequence

/-!
# Easel.Proofs.History

The history of a run: the statements that have completed, in the order in which they did, each with
the studio it found. Every run is a history and one last step, which changes nothing: at the end of
the program or at a statement that fails the studio is the one that the history has made
(`Program.exists_steps_of_halts`).

* `Program.Steps`: from one configuration to another by statements that complete.
* `Program.Steps.preserves`: what every event keeps, a run keeps.
* `Program.failure_keeps_earlier_work`: a run that fails has done what its history did, and no more.
-/

namespace Easel

/-- A statement that completed, and the studio it found. -/
structure Deed where
  stmt : Stmt
  before : Studio

/-- Carries out statements one after the other, wherever they would jump to. -/
def Stmt.performAll : List Stmt → EStateM Diagnostic Studio Unit
  | [] => return ()
  | s :: rest => do
    let _ ← s.perform
    performAll rest

theorem Stmt.performAll_cons {s : Stmt} {rest : List Stmt} {w w' : Studio} {f : Flow}
    (h : s.perform w = .ok f w') : performAll (s :: rest) w = performAll rest w' := by
  show EStateM.bind s.perform (fun _ => performAll rest) w = _
  rw [EStateM.bind, h]

namespace Program

/-- `Steps p t c history c'`: the run goes from `c` to `c'`, and on the way the statements of
`history` complete, in this order. -/
inductive Steps (p : Program) (t : LabelTable) : Config → List Deed → Config → Prop where
  | refl {c : Config} : Steps p t c [] c
  | cons {c c' c'' : Config} {s : Stmt} {history : List Deed} :
      p[c.place]? = some s → p.step t c = .next c' → Steps p t c' history c'' →
      Steps p t c (⟨s, c.studio⟩ :: history) c''

section Step

variable {p : Program} {t : LabelTable} {c : Config}

/-- The statement that a step goes past has completed. -/
theorem perform_of_step {c' : Config} {s : Stmt} (hs : p[c.place]? = some s)
    (h : p.step t c = .next c') : ∃ f, s.perform c.studio = .ok f c'.studio := by
  obtain ⟨s', hs', ⟨hp, _⟩ | ⟨l, hp, _⟩⟩ := step_eq_next_iff.mp h
  · rw [hs] at hs'
    cases hs'
    exact ⟨_, hp⟩
  · rw [hs] at hs'
    cases hs'
    exact ⟨_, hp⟩

theorem does_of_step {c' : Config} {s : Stmt} (hs : p[c.place]? = some s)
    (h : p.step t c = .next c') :
    ∃ f ev, s.action.Does c.studio f ev ∧ c'.studio = ev.apply c.studio := by
  obtain ⟨f, hp⟩ := perform_of_step hs h
  exact ⟨f, Stmt.perform_ok_iff.mp hp⟩

theorem step_eq_failed_iff {d : Diagnostic} {w : Studio} :
    p.step t c = .failed d w ↔ ∃ s, p[c.place]? = some s ∧ s.perform c.studio = .error d w := by
  unfold step
  cases p[c.place]? with
  | none => simp
  | some s =>
    cases hp : s.perform c.studio with
    | error d' w' => simp [hp]
    | ok f w' =>
      cases f with
      | next => simp [hp]
      | jump l => cases hl : t.place? l <;> simp [hp, hl]

/-- A jump of a program whose labels are in order has a place to go to. -/
theorem step_ne_stray (ht : ∀ l ∈ p.targets, l ∈ p.declared) (l : String) (w : Studio) :
    p.step p.table c ≠ .stray l w := by
  intro h
  unfold step at h
  split at h
  · cases h
  · rename_i s hs
    split at h
    · cases h
    · cases h
    · rename_i l' w' hp
      split at h
      · cases h
      · rename_i hl
        have hmem := ht l' (mem_targets (List.mem_of_getElem? hs) (Stmt.target?_of_perform hp))
        exact find?_table_eq_none_iff.mp (by simpa [LabelTable.place?] using hl) hmem

/-- The last step of a run changes nothing. -/
theorem studio_of_last_step {o : Outcome} (ht : ∀ l ∈ p.targets, l ∈ p.declared)
    (h : p.step p.table c = o) (hne : ∀ c', o ≠ .next c') : o.studio = c.studio := by
  cases o with
  | next c' => exact absurd rfl (hne c')
  | finished w => exact (step_eq_finished_iff.mp h).2
  | failed d w =>
    obtain ⟨s, _, hp⟩ := step_eq_failed_iff.mp h
    exact (Stmt.perform_error hp).1
  | stray l w => exact absurd h (step_ne_stray ht l w)

end Step

namespace Steps

variable {p : Program} {t : LabelTable} {c c' : Config} {history : List Deed}

/-- What every event keeps, a run keeps. -/
theorem preserves {P : Studio → Prop} (h : Steps p t c history c')
    (hstep : ∀ (a : Action) (w : Studio) (f : Flow) (ev : Event), a.Does w f ev → P w →
      P (ev.apply w))
    (hc : P c.studio) : P c'.studio := by
  induction h with
  | refl => exact hc
  | cons hs hstep' _ ih =>
    obtain ⟨f, ev, hd, hw⟩ := does_of_step hs hstep'
    refine ih ?_
    rw [hw]
    exact hstep _ _ f ev hd hc

/-- The studio is what the statements of the history make of it, one after the other. -/
theorem performAll_eq (h : Steps p t c history c') :
    Stmt.performAll (history.map Deed.stmt) c.studio = .ok () c'.studio := by
  induction h with
  | refl => rfl
  | cons hs hstep _ ih =>
    obtain ⟨f, hp⟩ := perform_of_step hs hstep
    rw [List.map_cons, Stmt.performAll_cons hp, ih]

end Steps

/-! ## Runs -/

theorem exists_steps_of_run {p : Program} {t : LabelTable} {o : Outcome} :
    ∀ {fuel : Nat} {c : Config}, p.run t fuel c = some o →
      ∃ history c', Steps p t c history c' ∧ p.step t c' = o ∧ ∀ c'', o ≠ .next c'' := by
  intro fuel
  induction fuel with
  | zero => intro c h; cases h
  | succ fuel ih =>
    intro c h
    simp only [run] at h
    cases hs : p.step t c with
    | next c' =>
      rw [hs] at h
      obtain ⟨history, c'', hsteps, hlast, hne⟩ := ih h
      obtain ⟨s, hget, _⟩ := step_eq_next_iff.mp hs
      exact ⟨_, c'', .cons hget hs hsteps, hlast, hne⟩
    | finished w =>
      rw [hs] at h
      cases h
      exact ⟨[], c, .refl, hs, by simp⟩
    | failed d w =>
      rw [hs] at h
      cases h
      exact ⟨[], c, .refl, hs, by simp⟩
    | stray l w =>
      rw [hs] at h
      cases h
      exact ⟨[], c, .refl, hs, by simp⟩

/-- An execution that ends has not begun, because of its labels, or it is a history and a last step
that changes nothing. -/
theorem exists_steps_of_halts {p : Program} {w : Studio} {o : Outcome} (h : p.Halts w o) :
    (∃ d, p.labels = .error d ∧ o = .failed d w) ∨
      ∃ history i, p.labels = .ok p.table ∧ Steps p p.table ⟨0, w⟩ history ⟨i, o.studio⟩ ∧
        p.step p.table ⟨i, o.studio⟩ = o := by
  obtain ⟨fuel, hf⟩ := h
  cases hl : p.labels with
  | error d =>
    simp only [execute, hl] at hf
    exact .inl ⟨d, rfl, (Option.some.inj hf).symm⟩
  | ok t =>
    obtain ⟨_, ht, rfl⟩ := labels_eq_ok_iff.mp hl
    simp only [execute, hl] at hf
    obtain ⟨history, c', hsteps, hlast, hne⟩ := exists_steps_of_run hf
    have hw : o.studio = c'.studio := studio_of_last_step ht hlast hne
    refine .inr ⟨history, c'.place, rfl, ?_, ?_⟩
    · rw [hw]
      exact hsteps
    · rw [hw]
      exact hlast

/-- A statement that fails changes nothing. So an execution that fails because of its labels has
done nothing at all, and one that fails at a statement has done what the statements did that
completed before it. -/
theorem failure_keeps_earlier_work :
    (∀ (s : Stmt) (w w' : Studio) (d : Diagnostic), s.perform w = .error d w' →
      w' = w ∧ d.line = s.line) ∧
    (∀ (p : Program) (w w' : Studio) (d : Diagnostic), p.Halts w (.failed d w') →
      ((∃ f, d.fault = .static f) ∧ p.labels = .error d ∧ w' = w) ∨
      ((∃ f, d.fault = .run f) ∧ ∃ t history i s, p.labels = .ok t ∧
        Steps p t ⟨0, w⟩ history ⟨i, w'⟩ ∧
        Stmt.performAll (history.map Deed.stmt) w = .ok () w' ∧
        p[i]? = some s ∧ s.perform w' = .error d w' ∧ d.line = s.line)) := by
  constructor
  · intro s w w' d h
    obtain ⟨hw, hl, _⟩ := Stmt.perform_error h
    exact ⟨hw, hl⟩
  · intro p w w' d h
    rcases exists_steps_of_halts h with ⟨d', hl, ho⟩ | ⟨history, i, hl, hsteps, hlast⟩
    · cases ho
      exact .inl ⟨fault_of_labels hl, hl, rfl⟩
    · obtain ⟨s, hs, hp⟩ := step_eq_failed_iff.mp hlast
      obtain ⟨_, hline, hf⟩ := Stmt.perform_error hp
      exact .inr ⟨hf, _, history, i, s, hl, hsteps, hsteps.performAll_eq, hs, hp, hline⟩

/-- The brush shrinks with every line that is drawn, and the second time it would vanish: both lines
and the size in between are kept. -/
theorem failure_keeps_earlier_work_in_a_loop :
    ∃ (p : Program) (w' : Studio) (t : LabelTable) (history : List Deed) (i : Nat) (s : Stmt),
      p.Halts (.blank 8) (.failed ⟨3, .run (.invalidBrushSize 0)⟩ w') ∧
      w'.canvas.strokes = #[.line ⟨0, 0⟩ ⟨1, 0⟩ {}, .line ⟨1, 0⟩ ⟨2, 0⟩ {}] ∧
      p.labels = .ok t ∧ Steps p t ⟨0, .blank 8⟩ history ⟨i, w'⟩ ∧
      Stmt.performAll (history.map Deed.stmt) (.blank 8) = .ok () w' ∧
      p[i]? = some s ∧ s.line = 3 ∧
      s.perform w' = .error ⟨3, .run (.invalidBrushSize 0)⟩ w' := by
  let p : Program :=
    [⟨1, .label "on"⟩, ⟨2, .command .drawLine [.number 1, .number 0, .number 1]⟩,
      ⟨3, .command .size [.binary (.number 2) (.arith .sub) (.call .actualX [])]⟩,
      ⟨4, .goTo "on" (.bool true)⟩]
  let w' : Studio :=
    ⟨{ cursor := ⟨2, 0⟩ }, ⟨8, #[.line ⟨0, 0⟩ ⟨1, 0⟩ {}, .line ⟨1, 0⟩ ⟨2, 0⟩ {}]⟩⟩
  have hp : p.Halts (.blank 8) (.failed ⟨3, .run (.invalidBrushSize 0)⟩ w') := ⟨7, rfl⟩
  obtain ⟨⟨f, hf⟩, _⟩ | ⟨_, t, history, i, s, hl, hsteps, hall, hs, hfail, _⟩ :=
    failure_keeps_earlier_work.2 p _ _ _ hp
  · cases hf
  · obtain ⟨_, hline⟩ := failure_keeps_earlier_work.1 s w' w' _ hfail
    exact ⟨p, w', t, history, i, s, hp, rfl, hl, hsteps, hall, hs, hline.symm, hfail⟩

end Program
end Easel
