import Easel.Proofs.History

/-!
# Easel.Proofs.Jumps

Jumps over whole runs. If the labels of a program are in order, a run of any length stays in the
program or stands at its end, and whenever a jump is taken the table has a place for its label: the
one statement that declares it (`Program.jumps_land`). So no run goes astray.

* `Program.Lands`: what a jump to a label finds.
* `Program.lands_of_perform`: what every jump of a program finds that has its labels in order.
* `Program.Steps.place_le`: a run does not leave the program.
* `Program.finished_or_failed_of_halts`: the two ways for an execution to end.
-/

namespace Easel
namespace Program

/-- A jump to the label goes on at the place `i` of the program, at the one statement that declares
the label. -/
structure Lands (p : Program) (t : LabelTable) (l : String) (i : Nat) : Prop where
  found : t.place? l = some i
  inside : i < p.length
  declares : p.Declares l i
  only : ∀ j, p.Declares l j → j = i

section Orderly

variable {p : Program} {t : LabelTable} {c : Config}

theorem exists_lands (h : p.labels = .ok t) {l : String} (hl : l ∈ p.targets) :
    ∃ i, p.Lands t l i := by
  obtain ⟨hn, ht, rfl⟩ := labels_eq_ok_iff.mp h
  obtain ⟨i, hi⟩ := mem_declared_iff.mp (ht l hl)
  have hfound : p.table.place? l = some i := (place?_table_eq_some_iff hn).mpr hi
  exact ⟨i, hfound, hi.lt_length, hi, fun j hj => hj.unique hn hi⟩

/-- A statement jumps only to its own label, and that is one of the program's. -/
theorem lands_of_perform (h : p.labels = .ok t) {s : Stmt} {w w' : Studio} {l : String}
    (hs : s ∈ p) (hp : s.perform w = .ok (.jump l) w') : ∃ i, p.Lands t l i :=
  exists_lands h (mem_targets hs (Stmt.target?_of_perform hp))

theorem step_of_lands {s : Stmt} {w' : Studio} {l : String} {i : Nat}
    (hs : p[c.place]? = some s) (hp : s.perform c.studio = .ok (.jump l) w')
    (hl : p.Lands t l i) : p.step t c = .next ⟨i, w'⟩ :=
  step_eq_next_iff.mpr ⟨s, hs, .inr ⟨l, hp, hl.found⟩⟩

end Orderly

/-- A run stays in the program or stands at its end. -/
theorem Steps.place_le {p : Program} {c c' : Config} {history : List Deed}
    (h : Steps p p.table c history c') (hc : c.place ≤ p.length) : c'.place ≤ p.length := by
  induction h with
  | refl => exact hc
  | cons _ hstep _ ih => exact ih (place_le_of_step hstep)

/-- An execution that ends has come past its last statement or has failed. -/
theorem finished_or_failed_of_halts {p : Program} {w : Studio} {o : Outcome} (h : p.Halts w o) :
    (∃ w', o = .finished w') ∨ ∃ d w', o = .failed d w' := by
  obtain ⟨fuel, hf⟩ := h
  unfold execute at hf
  split at hf
  · rename_i d _
    exact .inr ⟨d, w, (Option.some.inj hf).symm⟩
  · rename_i t hl
    obtain ⟨_, ht, rfl⟩ := labels_eq_ok_iff.mp hl
    obtain ⟨_, c', _, hlast, hne⟩ := exists_steps_of_run hf
    cases o with
    | next c => exact absurd rfl (hne c)
    | finished w' => exact .inl ⟨w', rfl⟩
    | failed d w' => exact .inr ⟨d, w', rfl⟩
    | stray l w' => exact absurd hlast (step_ne_stray ht l w')

/-- Wherever a run of a program stands that has its labels in order, it stands in the program or at
its end; a jump that is taken there goes on at the one statement that declares its label; and so no
jump goes astray, neither at any point of the run nor at its end. -/
theorem jumps_land {p : Program} {t : LabelTable} (h : p.labels = .ok t) (w : Studio) :
    (∀ history c, Steps p t ⟨0, w⟩ history c →
      c.place ≤ p.length ∧
      (∀ s l w', p[c.place]? = some s → s.perform c.studio = .ok (.jump l) w' →
        ∃ i, p.Lands t l i ∧ p.step t c = .next ⟨i, w'⟩) ∧
      ∀ l w', p.step t c ≠ .stray l w') ∧
    ∀ l w', ¬ p.Halts w (.stray l w') := by
  obtain ⟨_, ht, rfl⟩ := labels_eq_ok_iff.mp h
  refine ⟨fun history c hsteps => ⟨?_, ?_, ?_⟩, fun l w' ho => ?_⟩
  · exact hsteps.place_le (Nat.zero_le _)
  · intro s l w' hs hp
    obtain ⟨i, hi⟩ := lands_of_perform h (List.mem_of_getElem? hs) hp
    exact ⟨i, hi, step_of_lands hs hp hi⟩
  · exact step_ne_stray ht
  · obtain ⟨_, hend⟩ | ⟨_, _, hend⟩ := finished_or_failed_of_halts ho
    · cases hend
    · cases hend

/-- A loop without an end, whose statements stand on lines in disorder. Its jump goes back past a
label that it does not name, and after six steps the run stands at it again. -/
theorem jumps_land_in_endless_loop :
    ∃ (p : Program) (c : Config) (history : List Deed),
      p.labels = .ok p.table ∧ p.declared = ["on", "off"] ∧
      Steps p p.table ⟨0, .blank 8⟩ history c ∧ history.length = 6 ∧ c.place = 3 ∧
      c.place ≤ p.length ∧ p.Lands p.table "on" 1 ∧ p.step p.table c = .next ⟨1, .blank 8⟩ := by
  let p : Program :=
    [⟨4, .goTo "on" (.bool true)⟩, ⟨2, .label "on"⟩, ⟨2, .label "off"⟩,
      ⟨1, .goTo "on" (.bool true)⟩, ⟨3, .goTo "off" (.bool true)⟩]
  have hl : p.labels = .ok p.table := rfl
  let history : List Deed :=
    [⟨4, .goTo "on" (.bool true)⟩, ⟨2, .label "on"⟩, ⟨2, .label "off"⟩,
      ⟨1, .goTo "on" (.bool true)⟩, ⟨2, .label "on"⟩, ⟨2, .label "off"⟩].map (⟨·, .blank 8⟩)
  have hsteps : Steps p p.table ⟨0, .blank 8⟩ history ⟨3, .blank 8⟩ :=
    .cons rfl rfl (.cons rfl rfl (.cons rfl rfl (.cons rfl rfl (.cons rfl rfl
      (.cons rfl rfl .refl)))))
  obtain ⟨hle, hjump, _⟩ := (jumps_land hl (.blank 8)).1 history _ hsteps
  obtain ⟨i, hi, hstep⟩ := hjump _ "on" (.blank 8) rfl rfl
  obtain rfl : i = 1 := Option.some.inj (hi.found.symm.trans rfl)
  exact ⟨p, _, history, hl, rfl, hsteps, rfl, rfl, hle, hi, hstep⟩

end Program
end Easel
