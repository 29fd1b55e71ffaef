import Easel.Proofs.Steps

/-!
# Easel.Proofs.Sequence

Programs one after the other. If the labels of `p` and of `q` are in order and have no name in
common, then `p ++ q` runs like `p` and, where `p` comes to its end, like `q` from there on
(`Program.execute_append`).

* `Program.step_append_left`: below the length of `p` a step of `p ++ q` is a step of `p`, since the
  jumps of `p` stay in `p`.
* `Program.step_append_right`: from the length of `p` on it is a step of `q`, all places moved up.
* `Program.run_append_left`, `Program.run_append_of_finished`: what follows for whole runs.
-/

namespace Easel

/-- The outcome with the place of what comes next moved up by `n`. -/
def Outcome.moveUp (n : Nat) : Outcome → Outcome
  | .next c => .next ⟨n + c.place, c.studio⟩
  | o => o

namespace Program

/-! ## Steps -/

section Append

variable {p q : Program}

/-- A step of the first program. -/
theorem step_append_left (ht : ∀ l ∈ p.targets, l ∈ p.declared) {c : Config}
    (hc : c.place < p.length) : (p ++ q).step (p ++ q).table c = p.step p.table c := by
  have hget : (p ++ q)[c.place]? = p[c.place]? := List.getElem?_append_left hc
  obtain ⟨s, hs⟩ : ∃ s, p[c.place]? = some s := ⟨p[c.place], List.getElem?_eq_getElem hc⟩
  simp only [step, hget, hs]
  cases hp : s.perform c.studio with
  | error d w => rfl
  | ok f w =>
    cases f with
    | next => rfl
    | jump l =>
      have hl : l ∈ p.declared :=
        ht l (mem_targets (List.mem_of_getElem? hs) (Stmt.target?_of_perform hp))
      simp only [place?_table_append_of_mem hl]

/-- A step of the second program. -/
theorem step_append_right (ht : ∀ l ∈ q.targets, l ∉ p.declared) (i : Nat) (w : Studio) :
    (p ++ q).step (p ++ q).table ⟨p.length + i, w⟩ = (q.step q.table ⟨i, w⟩).moveUp p.length := by
  have hget : (p ++ q)[p.length + i]? = q[i]? := by
    rw [List.getElem?_append_right (Nat.le_add_right ..), Nat.add_sub_cancel_left]
  simp only [step, hget]
  cases hs : q[i]? with
  | none => rfl
  | some s =>
    simp only
    cases hp : s.perform w with
    | error d w' => rfl
    | ok f w' =>
      cases f with
      | next => rfl
      | jump l =>
        have hl : l ∉ p.declared :=
          ht l (mem_targets (List.mem_of_getElem? hs) (Stmt.target?_of_perform hp))
        simp only [place?_table_append_of_not_mem hl]
        cases q.table.place? l <;> rfl

/-- A run does not leave the program but at its end. -/
theorem place_le_of_step {c c' : Config} (h : p.step p.table c = .next c') :
    c'.place ≤ p.length := by
  obtain ⟨s, hs, ⟨_, hc'⟩ | ⟨l, _, hl⟩⟩ := step_eq_next_iff.mp h
  · have hc : c.place < p.length := (List.getElem?_eq_some_iff.mp hs).1
    omega
  · exact Nat.le_of_lt (place?_table_lt hl)

/-! ## Runs -/

theorem run_append_right (ht : ∀ l ∈ q.targets, l ∉ p.declared) (fuel : Nat) :
    ∀ (i : Nat) (w : Studio), (p ++ q).run (p ++ q).table fuel ⟨p.length + i, w⟩ =
      q.run q.table fuel ⟨i, w⟩ := by
  induction fuel with
  | zero => intro i w; rfl
  | succ fuel ih =>
    intro i w
    simp only [run, step_append_right ht]
    cases q.step q.table ⟨i, w⟩ with
    | next c => exact ih c.place c.studio
    | finished w' => rfl
    | failed d w' => rfl
    | stray l w' => rfl

/-- As long as the first program does not come to its end, nothing else runs. -/
theorem run_append_left (ht : ∀ l ∈ p.targets, l ∈ p.declared) {fuel : Nat} :
    ∀ {c : Config}, (∀ w, p.run p.table fuel c ≠ some (.finished w)) →
      (p ++ q).run (p ++ q).table fuel c = p.run p.table fuel c := by
  induction fuel with
  | zero => intro c _; rfl
  | succ fuel ih =>
    intro c hne
    have hc : c.place < p.length := by
      refine Nat.lt_of_not_le fun hle => hne c.studio ?_
      simp only [run, step_eq_finished_iff.mpr ⟨hle, rfl⟩]
    simp only [run, step_append_left ht hc] at hne ⊢
    cases hs : p.step p.table c with
    | next c' =>
      rw [hs] at hne
      exact ih hne
    | finished w => rfl
    | failed d w => rfl
    | stray l w => rfl

/-- Where the first program comes to its end, the second one begins. -/
theorem run_append_of_finished (hp : ∀ l ∈ p.targets, l ∈ p.declared)
    (hq : ∀ l ∈ q.targets, l ∉ p.declared) {fuel : Nat} {w : Studio} :
    ∀ {c : Config}, c.place ≤ p.length → p.run p.table fuel c = some (.finished w) →
      ∃ k, ∀ more, (p ++ q).run (p ++ q).table (k + more) c = q.run q.table more ⟨0, w⟩ := by
  induction fuel with
  | zero => intro c _ h; cases h
  | succ fuel ih =>
    intro c hle h
    simp only [run] at h
    cases hs : p.step p.table c with
    | next c' =>
      rw [hs] at h
      obtain ⟨s, hget, _⟩ := step_eq_next_iff.mp hs
      have hlt : c.place < p.length := (List.getElem?_eq_some_iff.mp hget).1
      obtain ⟨k, hk⟩ := ih (place_le_of_step hs) h
      refine ⟨k + 1, fun more => ?_⟩
      rw [Nat.add_right_comm]
      simp only [run, step_append_left hp hlt, hs, hk]
    | finished w' =>
      rw [hs] at h
      cases h
      obtain ⟨hge, rfl⟩ := step_eq_finished_iff.mp hs
      obtain ⟨place, w⟩ := c
      obtain rfl : place = p.length := Nat.le_antisymm hle hge
      exact ⟨0, fun more => by rw [Nat.zero_add]; exact run_append_right hq more 0 w⟩
    | failed d w' => rw [hs] at h; cases h
    | stray l w' => rw [hs] at h; cases h

end Append

/-! ## Executions -/

theorem halts_iff {p : Program} {w : Studio} {o : Outcome} (h : p.labels = .ok p.table) :
    p.Halts w o ↔ ∃ fuel, p.run p.table fuel ⟨0, w⟩ = some o := by
  simp only [Halts, execute, h]

theorem diverges_iff {p : Program} {w : Studio} (h : p.labels = .ok p.table) :
    p.Diverges w ↔ ∀ fuel, p.run p.table fuel ⟨0, w⟩ = none := by
  simp only [Diverges, execute, h]

/-- The labels of both programs are in order, and they have none in common. -/
structure Apart (p q : Program) : Prop where
  left : p.labels = .ok p.table
  right : q.labels = .ok q.table
  disjoint : ∀ l ∈ p.declared, l ∉ q.declared

namespace Apart

variable {p q : Program} {w w' : Studio}

theorem jumps_left (h : Apart p q) : ∀ l ∈ p.targets, l ∈ p.declared :=
  (labels_eq_ok_iff.mp h.left).2.1

theorem jumps_right (h : Apart p q) : ∀ l ∈ q.targets, l ∉ p.declared := by
  intro l hl hmem
  exact h.disjoint l hmem ((labels_eq_ok_iff.mp h.right).2.1 l hl)

theorem labels_append (h : Apart p q) : (p ++ q).labels = .ok (p ++ q).table := by
  obtain ⟨hnp, htp, _⟩ := labels_eq_ok_iff.mp h.left
  obtain ⟨hnq, htq, _⟩ := labels_eq_ok_iff.mp h.right
  refine labels_eq_ok_iff.mpr ⟨?_, ?_, rfl⟩
  · rw [declared_append, List.nodup_append]
    exact ⟨hnp, hnq, fun l hl l' hl' he => h.disjoint l hl (he ▸ hl')⟩
  · intro l hl
    rw [targets_append, List.mem_append] at hl
    rw [declared_append, List.mem_append]
    exact hl.imp (htp l) (htq l)

/-- Any end of the first program but its regular one is the end of both. -/
theorem halts_append_left (h : Apart p q) {o : Outcome} (ho : ∀ w', o ≠ .finished w')
    (hp : p.Halts w o) : (p ++ q).Halts w o := by
  obtain ⟨fuel, hf⟩ := (halts_iff h.left).mp hp
  have hne : ∀ w', p.run p.table fuel ⟨0, w⟩ ≠ some (.finished w') := by
    intro w' hw
    rw [hf] at hw
    exact ho w' (Option.some.inj hw)
  refine (halts_iff h.labels_append).mpr ⟨fuel, ?_⟩
  rw [run_append_left h.jumps_left hne, hf]

theorem halts_append_iff (h : Apart p q) (hp : p.Halts w (.finished w')) (o : Outcome) :
    (p ++ q).Halts w o ↔ q.Halts w' o := by
  obtain ⟨fuel, hf⟩ := (halts_iff h.left).mp hp
  obtain ⟨k, hk⟩ := run_append_of_finished h.jumps_left h.jumps_right (Nat.zero_le _) hf
  rw [halts_iff h.labels_append, halts_iff h.right]
  constructor
  · rintro ⟨m, hm⟩
    refine ⟨m, ?_⟩
    rw [← hk]
    exact run_mono (Nat.le_add_left ..) hm
  · rintro ⟨m, hm⟩
    refine ⟨k + m, ?_⟩
    rw [hk]
    exact hm

theorem diverges_append (h : Apart p q) (hp : p.Diverges w) : (p ++ q).Diverges w := by
  rw [diverges_iff h.left] at hp
  refine (diverges_iff h.labels_append).mpr fun fuel => ?_
  rw [run_append_left h.jumps_left (fun w' hw => by rw [hp] at hw; cases hw), hp]

end Apart

theorem not_diverges_iff {p : Program} {w : Studio} : ¬ p.Diverges w ↔ ∃ o, p.Halts w o := by
  simp only [Diverges, Halts, Classical.not_forall, ← ne_eq, Option.ne_none_iff_exists']
  exact exists_comm

/-- The outcome of two programs one after the other, by the outcome of each. -/
theorem execute_append {p q : Program} (hp : ∃ t, p.labels = .ok t) (hq : ∃ t, q.labels = .ok t)
    (hpq : ∀ l ∈ p.declared, l ∉ q.declared) (w : Studio) :
    (∃ t, (p ++ q).labels = .ok t) ∧
    (∀ d w', p.Halts w (.failed d w') → (p ++ q).Halts w (.failed d w')) ∧
    (∀ w', p.Halts w (.finished w') → ∀ o, (p ++ q).Halts w o ↔ q.Halts w' o) ∧
    ((p ++ q).Diverges w ↔
      p.Diverges w ∨ ∃ w', p.Halts w (.finished w') ∧ q.Diverges w') := by
  obtain ⟨tp, hlp⟩ := hp
  obtain ⟨tq, hlq⟩ := hq
  obtain ⟨_, _, rfl⟩ := labels_eq_ok_iff.mp hlp
  obtain ⟨_, _, rfl⟩ := labels_eq_ok_iff.mp hlq
  have h : Apart p q := ⟨hlp, hlq, hpq⟩
  refine ⟨⟨_, h.labels_append⟩, fun d w' => h.halts_append_left (by simp),
    fun w' hw => h.halts_append_iff hw, ?_⟩
  constructor
  · intro hd
    by_cases hdp : p.Diverges w
    · exact .inl hdp
    · obtain ⟨o, ho⟩ := not_diverges_iff.mp hdp
      by_cases hf : ∃ w', o = .finished w'
      · obtain ⟨w', rfl⟩ := hf
        refine .inr ⟨w', ho, Classical.not_not.mp fun hdq => ?_⟩
        obtain ⟨o, hoq⟩ := not_diverges_iff.mp hdq
        exact not_diverges_iff.mpr ⟨o, (h.halts_append_iff ho o).mpr hoq⟩ hd
      · have hpq := h.halts_append_left (fun w' hw => hf ⟨w', hw⟩) ho
        exact absurd hd (not_diverges_iff.mpr ⟨o, hpq⟩)
  · rintro (hd | ⟨w', hw, hdq⟩)
    · exact h.diverges_append hd
    · refine Classical.not_not.mp fun hd => ?_
      obtain ⟨o, ho⟩ := not_diverges_iff.mp hd
      exact not_diverges_iff.mpr ⟨o, (h.halts_append_iff hw o).mp ho⟩ hdq

/-- The first program goes back until the robot stands at 2, and the second one jumps over its
first stroke. -/
theorem execute_append_loop_and_jump :
    ∃ (p q : Program) (w' w'' : Studio),
      p.declared = ["on"] ∧ q.declared = ["out"] ∧ p.targets = ["on"] ∧ q.targets = ["out"] ∧
        p.Halts (.blank 8) (.finished w') ∧ q.Halts w' (.finished w'') ∧
        (p ++ q).Halts (.blank 8) (.finished w'') ∧
        w''.canvas.strokes =
          #[.line ⟨0, 0⟩ ⟨1, 0⟩ {}, .line ⟨1, 0⟩ ⟨2, 0⟩ {}, .fill ⟨2, 0⟩ {}] := by
  let p : Program :=
    [⟨1, .label "on"⟩, ⟨2, .command .drawLine [.number 1, .number 0, .number 1]⟩,
      ⟨3, .goTo "on" (.binary (.call .actualX []) (.order .lt) (.number 2))⟩]
  let q : Program :=
    [⟨1, .goTo "out" (.bool true)⟩, ⟨2, .command .drawLine [.number 0, .number 1, .number 1]⟩,
      ⟨3, .label "out"⟩, ⟨4, .command .fill []⟩]
  let lines : Array Stroke := #[.line ⟨0, 0⟩ ⟨1, 0⟩ {}, .line ⟨1, 0⟩ ⟨2, 0⟩ {}]
  let w' : Studio := ⟨{ cursor := ⟨2, 0⟩ }, ⟨8, lines⟩⟩
  have hp : p.Halts (.blank 8) (.finished w') := ⟨7, rfl⟩
  have hq : q.Halts w' (.finished (w'.draw (.fill ⟨2, 0⟩ {}))) := ⟨4, rfl⟩
  obtain ⟨_, _, happend, _⟩ :=
    execute_append (p := p) (q := q) ⟨_, rfl⟩ ⟨_, rfl⟩ (by decide) (.blank 8)
  have hpq := happend w' hp
  exact ⟨p, q, w', _, rfl, rfl, rfl, rfl, hp, hq, (hpq _).mpr hq, rfl⟩

end Program
end Easel
