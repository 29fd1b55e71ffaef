import Easel.Program.Run
import Easel.Proofs.Labels

/-!
# Easel.Proofs.Steps

What one step of a run can do, and how a run ends. A step is taken apart once, by the outcome it
has (`Program.step_eq_next_iff`, `Program.step_eq_finished_iff`).

* `Stmt.target?_of_perform`: a statement that jumps goes to its own label.
* `Program.run_mono`: a run that comes to an end with some fuel comes to the same end with more.
* `Program.Halts`, `Program.Diverges`: executions without fuel.
-/

namespace Easel

variable {α β : Type}

theorem Task.bind_ok_iff {t : Task α} {g : α → Task β} {w w' : Studio} {b : β} :
    (t >>= g) w = .ok b w' ↔ ∃ a w₁, t w = .ok a w₁ ∧ g a w₁ = .ok b w' := by
  show EStateM.bind t g w = _ ↔ _
  unfold EStateM.bind
  cases t w with
  | ok a w₁ =>
    constructor
    · intro h
      exact ⟨a, w₁, rfl, h⟩
    · rintro ⟨_, _, h, hg⟩
      cases h
      exact hg
  | error f w₁ => simp

/-- Only a jump goes elsewhere, and only to its own label. -/
theorem Action.target?_of_perform {a : Action} {w w' : Studio} {l : String}
    (h : a.perform w = .ok (.jump l) w') : a.target? = some l := by
  cases a with
  | assign x ty e =>
    obtain ⟨_, _, _, h⟩ := Task.bind_ok_iff.mp h
    obtain ⟨_, _, _, h⟩ := Task.bind_ok_iff.mp h
    obtain ⟨_, _, _, h⟩ := Task.bind_ok_iff.mp h
    cases h
  | command c args =>
    obtain ⟨_, _, _, h⟩ := Task.bind_ok_iff.mp h
    obtain ⟨_, _, _, h⟩ := Task.bind_ok_iff.mp h
    cases h
  | label l' => cases h
  | goTo l' e =>
    obtain ⟨_, _, _, h⟩ := Task.bind_ok_iff.mp h
    obtain ⟨v, _, _, h⟩ := Task.bind_ok_iff.mp h
    rcases v with n | (_ | _)
    · cases h
    · cases h
    · cases h
      rfl
  | discard e =>
    obtain ⟨_, _, _, h⟩ := Task.bind_ok_iff.mp h
    obtain ⟨_, _, _, h⟩ := Task.bind_ok_iff.mp h
    cases h

theorem Stmt.target?_of_perform {s : Stmt} {w w' : Studio} {l : String}
    (h : s.perform w = .ok (.jump l) w') : s.action.target? = some l := by
  unfold perform EStateM.adaptExcept at h
  cases ha : s.action.perform w with
  | ok f w₁ =>
    rw [ha] at h
    cases h
    exact Action.target?_of_perform ha
  | error f w₁ =>
    rw [ha] at h
    cases h

namespace Program

theorem mem_targets {p : Program} {s : Stmt} {l : String} (hs : s ∈ p)
    (h : s.action.target? = some l) : l ∈ p.targets :=
  List.mem_filterMap.mpr ⟨s, hs, h⟩

section Step

variable {p : Program} {t : LabelTable} {c : Config}

theorem step_eq_next_iff {c' : Config} :
    p.step t c = .next c' ↔
      ∃ s, p[c.place]? = some s ∧
        ((s.perform c.studio = .ok .next c'.studio ∧ c'.place = c.place + 1) ∨
          ∃ l, s.perform c.studio = .ok (.jump l) c'.studio ∧ t.place? l = some c'.place) := by
  obtain ⟨i, w⟩ := c'
  unfold step
  cases p[c.place]? with
  | none => simp
  | some s =>
    cases hp : s.perform c.studio with
    | error d w' => simp [hp]
    | ok f w' =>
      cases f with
      | next => simp [hp, and_comm, eq_comm]
      | jump l =>
        cases hl : t.place? l with
        | none => simp [hp, hl, and_assoc]
        | some j =>
          simp only [hp, EStateM.Result.ok.injEq, reduceCtorEq, Flow.jump.injEq, false_and,
            false_or, Option.some.injEq, exists_eq_left', and_assoc, hl, Outcome.next.injEq,
            Config.mk.injEq]
          exact and_comm

theorem step_eq_finished_iff {w : Studio} :
    p.step t c = .finished w ↔ p.length ≤ c.place ∧ w = c.studio := by
  rw [← List.getElem?_eq_none_iff]
  unfold step
  cases p[c.place]? with
  | none => simp [eq_comm]
  | some s =>
    cases hp : s.perform c.studio with
    | error d w' => simp [hp]
    | ok f w' =>
      cases f with
      | next => simp [hp]
      | jump l => cases hl : t.place? l <;> simp [hp, hl]

end Step

theorem run_mono {p : Program} {t : LabelTable} {o : Outcome} :
    ∀ {fuel fuel' : Nat} {c : Config}, fuel ≤ fuel' → p.run t fuel c = some o →
      p.run t fuel' c = some o := by
  intro fuel
  induction fuel with
  | zero => intro fuel' c _ h; cases h
  | succ fuel ih =>
    intro fuel' c hle h
    obtain ⟨fuel', rfl⟩ : ∃ k, fuel' = k + 1 := ⟨fuel' - 1, by omega⟩
    simp only [run] at h ⊢
    cases hs : p.step t c with
    | next c' =>
      rw [hs] at h
      exact ih (by omega) h
    | finished w => rw [hs] at h; exact h
    | failed d w => rw [hs] at h; exact h
    | stray l w => rw [hs] at h; exact h

/-- The execution comes to an end, and this is how. -/
def Halts (p : Program) (w : Studio) (o : Outcome) : Prop := ∃ fuel, p.execute fuel w = some o

/-- The execution never comes to an end. -/
def Diverges (p : Program) (w : Studio) : Prop := ∀ fuel, p.execute fuel w = none

end Program
end Easel
