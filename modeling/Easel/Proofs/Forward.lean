import Easel.Proofs.Jumps

/-!
# Easel.Proofs.Forward

Programs whose jumps all go forward. A step of such a program leads to a later place, whether it
falls through or jumps, and there are only so many places: a run is over after as many steps as the
program has statements and one more, and carries out each of them at most once, in the order in
which they stand (`Program.forward_halts`).

* `Program.Forward`: every label that is jumped to stands behind the jump.
* `Program.visits`: the places of the statements that a run carries out.
* `Program.place_lt_of_step`: one step. The rest follows by induction on the steps.
-/

namespace Easel
namespace Program

/-- The table has every label behind the jumps to it. -/
def Forward (p : Program) (t : LabelTable) : Prop :=
  ∀ i, ∀ h : i < p.length, ∀ l ∈ p[i].action.target?, ∀ j ∈ t.place? l, i < j

instance (p : Program) (t : LabelTable) : Decidable (p.Forward t) :=
  inferInstanceAs (Decidable (∀ i, ∀ h : i < p.length, ∀ l ∈ p[i].action.target?,
    ∀ j ∈ t.place? l, i < j))

/-- The places of the statements that a run carries out in its first `fuel` steps, in order. A
statement that fails is the last of them. -/
def visits (p : Program) (t : LabelTable) : Nat → Config → List Nat
  | 0, _ => []
  | fuel + 1, c =>
    match p.step t c with
    | .next c' => c.place :: visits p t fuel c'
    | .finished _ => []
    | .failed _ _ | .stray _ _ => [c.place]

variable {p : Program} {t : LabelTable} {fuel : Nat} {c : Config}

theorem lt_length_of_step (h : ∀ w, p.step t c ≠ .finished w) : c.place < p.length := by
  refine Nat.lt_of_not_le fun hle => ?_
  exact h c.studio (step_eq_finished_iff.mpr ⟨hle, rfl⟩)

/-- The statements of a history stand at the places that the run visits. -/
theorem Steps.map_visits {c' : Config} {history : List Deed} (h : Steps p t c history c') :
    (p.visits t history.length c).map (p[·]?) = history.map fun d => some d.stmt := by
  induction h with
  | refl => rfl
  | cons hs hstep _ ih =>
    simp only [List.length_cons, visits, hstep, List.map_cons, hs, ih]

/-- A place is visited by the first step, if that carries out a statement, or by a later one. -/
theorem mem_visits_succ {i : Nat} (h : i ∈ p.visits t (fuel + 1) c) :
    (i = c.place ∧ i < p.length) ∨ ∃ c', p.step t c = .next c' ∧ i ∈ p.visits t fuel c' := by
  -- A step that is not the end of the program stands at a statement of it.
  have hlt : (∀ w, p.step t c ≠ .finished w) → i = c.place → i = c.place ∧ i < p.length := by
    rintro hne rfl
    exact ⟨rfl, lt_length_of_step hne⟩
  simp only [visits] at h
  cases hs : p.step t c with
  | next c' =>
    rw [hs] at h
    rcases List.mem_cons.mp h with hi | h
    · exact .inl (hlt (by simp [hs]) hi)
    · exact .inr ⟨c', rfl, h⟩
  | finished w =>
    rw [hs] at h
    cases h
  | failed d w =>
    rw [hs] at h
    exact .inl (hlt (by simp [hs]) (List.mem_singleton.mp h))
  | stray l w =>
    rw [hs] at h
    exact .inl (hlt (by simp [hs]) (List.mem_singleton.mp h))

theorem lt_length_of_mem_visits {i : Nat} :
    ∀ {c : Config}, i ∈ p.visits t fuel c → i < p.length := by
  induction fuel with
  | zero => intro c h; cases h
  | succ fuel ih =>
    intro c h
    obtain ⟨_, hlt⟩ | ⟨c', _, h⟩ := mem_visits_succ h
    · exact hlt
    · exact ih h

/-! ## Forward jumps -/

section Forward

variable (hf : p.Forward t)

include hf

/-- A step leads to a later place. -/
theorem place_lt_of_step {c' : Config} (h : p.step t c = .next c') : c.place < c'.place := by
  obtain ⟨s, hs, ⟨_, hc'⟩ | ⟨l, hp, hl⟩⟩ := step_eq_next_iff.mp h
  · omega
  · obtain ⟨hlt, rfl⟩ := List.getElem?_eq_some_iff.mp hs
    exact hf c.place hlt l (Stmt.target?_of_perform hp) c'.place hl

/-- With every step fewer places are left, and one more step finds that there are none. -/
theorem exists_run_of_forward :
    ∀ {c : Config}, p.length - c.place < fuel → ∃ o, p.run t fuel c = some o := by
  induction fuel with
  | zero => intro c h; omega
  | succ fuel ih =>
    intro c h
    simp only [run]
    cases hs : p.step t c with
    | next c' =>
      have hlt : c.place < c'.place := place_lt_of_step hf hs
      have hc : c.place < p.length := lt_length_of_step (t := t) (by simp [hs])
      exact ih (by omega)
    | finished w => exact ⟨_, rfl⟩
    | failed d w => exact ⟨_, rfl⟩
    | stray l w => exact ⟨_, rfl⟩

/-- A run never comes back to an earlier place. -/
theorem place_le_of_mem_visits {i : Nat} :
    ∀ {c : Config}, i ∈ p.visits t fuel c → c.place ≤ i := by
  induction fuel with
  | zero => intro c h; cases h
  | succ fuel ih =>
    intro c h
    obtain ⟨rfl, _⟩ | ⟨c', hs, h⟩ := mem_visits_succ h
    · exact Nat.le_refl _
    · have hlt : c.place < c'.place := place_lt_of_step hf hs
      exact Nat.le_trans (Nat.le_of_lt hlt) (ih h)

theorem pairwise_visits : ∀ c : Config, (p.visits t fuel c).Pairwise (· < ·) := by
  induction fuel with
  | zero => exact fun c => .nil
  | succ fuel ih =>
    intro c
    simp only [visits]
    cases hs : p.step t c with
    | next c' =>
      have hlt : c.place < c'.place := place_lt_of_step hf hs
      refine .cons (fun i hi => ?_) (ih c')
      exact Nat.lt_of_lt_of_le hlt (place_le_of_mem_visits hf hi)
    | finished w => exact .nil
    | failed d w => exact List.pairwise_singleton ..
    | stray l w => exact List.pairwise_singleton ..

end Forward

/-- If all jumps of a program go forward, an execution ends, in whatever studio it begins: by the
time it has taken one step more than there are statements, it has come past the last one or has
failed. The places that it visits up to any moment increase, so that no statement is carried out
twice or out of order, and they are the places of the statements of its history. -/
theorem forward_halts {p : Program} {t : LabelTable} (h : p.labels = .ok t) (hf : p.Forward t)
    (w : Studio) :
    (∃ o, p.execute (p.length + 1) w = some o ∧
      ((∃ w', o = .finished w') ∨ ∃ d w', o = .failed d w')) ∧
    (∀ fuel, (p.visits t fuel ⟨0, w⟩).Pairwise (· < ·) ∧
      ∀ i ∈ p.visits t fuel ⟨0, w⟩, i < p.length) ∧
    ∀ history c, Steps p t ⟨0, w⟩ history c →
      (p.visits t history.length ⟨0, w⟩).map (p[·]?) = history.map fun d => some d.stmt := by
  refine ⟨?_, fun fuel => ⟨pairwise_visits hf _, fun i => lt_length_of_mem_visits⟩,
    fun history c hsteps => hsteps.map_visits⟩
  obtain ⟨o, ho⟩ : ∃ o, p.run t (p.length + 1) ⟨0, w⟩ = some o :=
    exists_run_of_forward hf (by omega)
  have hexec : p.execute (p.length + 1) w = some o := by
    simp only [execute, h, ho]
  exact ⟨o, hexec, finished_or_failed_of_halts ⟨_, hexec⟩⟩

/-- The first jump passes over a stroke, the second one is not taken, and the third one passes over
a division by zero; of nine statements seven are carried out. -/
theorem forward_halts_past_division :
    ∃ (p : Program) (w' : Studio), p.labels = .ok p.table ∧ p.Forward p.table ∧ p.length = 9 ∧
      p.execute 10 (.blank 8) = some (.finished w') ∧
      w'.canvas.strokes = #[.fill ⟨0, 0⟩ { size := 3 }] ∧
      p.visits p.table 10 ⟨0, .blank 8⟩ = [0, 2, 3, 4, 5, 7, 8] ∧
      (p.visits p.table 10 ⟨0, .blank 8⟩).Pairwise (· < ·) := by
  let p : Program :=
    [⟨1, .goTo "on" (.bool true)⟩, ⟨2, .command .fill []⟩, ⟨3, .label "on"⟩,
      ⟨4, .goTo "out" (.bool false)⟩, ⟨5, .command .size [.number 3]⟩,
      ⟨6, .goTo "out" (.binary (.call .actualX []) (.order .lt) (.number 2))⟩,
      ⟨7, .discard (.binary (.number 1) (.arith .div) (.number 0))⟩, ⟨8, .label "out"⟩,
      ⟨9, .command .fill []⟩]
  let w' : Studio := ((Studio.blank 8).setSize 3).draw (.fill ⟨0, 0⟩ { size := 3 })
  have hl : p.labels = .ok p.table := rfl
  have hf : p.Forward p.table := by decide
  obtain ⟨⟨o, ho, _⟩, hvisits, _⟩ := forward_halts hl hf (.blank 8)
  obtain rfl : o = .finished w' := Option.some.inj (ho.symm.trans rfl)
  exact ⟨p, w', hl, hf, rfl, ho, rfl, rfl, (hvisits 10).1⟩

end Program
end Easel
