import Easel.Proofs.Labels

/-!
# Easel.Proofs.Resolution

Which diagnostic a program gets whose labels are not in order, in terms of its statements alone
(`Program.labels_exact`).

* `Program.FirstClash`: the first statement that declares a label once more, and the first one that
  has declared it.
* `Program.FirstStray`: the first jump to a label that is declared nowhere.
* `LabelTable.clash_of_collect` and `LabelTable.stray_of_checkJumps`: a pass over the program stops
  at the first statement that it cannot accept, so what stands before it is in order.
-/

namespace Easel
namespace Program

/-- The statement at the place may jump to the label. -/
def JumpsTo (p : Program) (l : String) (i : Nat) : Prop :=
  ∃ s e, p[i]? = some s ∧ s.action = .goTo l e

/-- No label is declared at two places. -/
def Distinct (p : Program) : Prop :=
  ∀ l i j, p.Declares l i → p.Declares l j → i = j

/-- Every jump has a label to go to, before or behind it. -/
def Closed (p : Program) : Prop :=
  ∀ l i, p.JumpsTo l i → ∃ j, p.Declares l j

/-- The statement at the place declares a label that is declared before it. -/
def Redeclares (p : Program) (l : String) (j : Nat) : Prop :=
  p.Declares l j ∧ ∃ i, i < j ∧ p.Declares l i

/-- The diagnostic is about the first statement that redeclares a label. It has the line of that
statement and the line of the first one that declares the label. -/
def FirstClash (p : Program) (d : Diagnostic) : Prop :=
  ∃ l i j s s', i < j ∧ p[i]? = some s ∧ s.action = .label l ∧ p[j]? = some s' ∧
    s'.action = .label l ∧ (∀ k, k < i → ¬ p.Declares l k) ∧
    (∀ k l', k < j → ¬ p.Redeclares l' k) ∧
    d = ⟨s'.line, .static (.duplicateLabel l s.line)⟩

/-- The diagnostic is about the first jump to a label that is declared nowhere. -/
def FirstStray (p : Program) (d : Diagnostic) : Prop :=
  ∃ l e j s, p[j]? = some s ∧ s.action = .goTo l e ∧ (∀ i, ¬ p.Declares l i) ∧
    (∀ k l', k < j → p.JumpsTo l' k → ∃ i, p.Declares l' i) ∧
    d = ⟨s.line, .static (.undefinedLabel l)⟩

theorem FirstClash.not_distinct {p : Program} {d : Diagnostic} (h : p.FirstClash d) :
    ¬ p.Distinct := by
  obtain ⟨l, i, j, s, s', hlt, hs, ha, hs', ha', _⟩ := h
  intro hd
  have := hd l i j ⟨s, hs, ha⟩ ⟨s', hs', ha'⟩
  omega

theorem mem_targets_iff {p : Program} {l : String} : l ∈ p.targets ↔ ∃ i, p.JumpsTo l i := by
  rw [targets, List.mem_filterMap]
  constructor
  · rintro ⟨s, hs, hl⟩
    obtain ⟨i, hi⟩ := List.mem_iff_getElem?.mp hs
    obtain ⟨e, ha⟩ := Action.target?_eq_some_iff.mp hl
    exact ⟨i, s, e, hi, ha⟩
  · rintro ⟨i, s, e, hi, ha⟩
    exact ⟨s, List.mem_of_getElem? hi, Action.target?_eq_some_iff.mpr ⟨e, ha⟩⟩

theorem closed_iff {p : Program} : p.Closed ↔ ∀ l ∈ p.targets, l ∈ p.declared := by
  simp only [mem_targets_iff, mem_declared_iff]
  constructor
  · rintro h l ⟨i, hi⟩
    exact h l i hi
  · intro h l i hi
    exact h l ⟨i, hi⟩

/-! ## The statements before a place -/

section Before

variable {before rest : Program} {l : String} {i : Nat}

theorem declares_append_left (h : i < before.length) :
    Declares (before ++ rest) l i ↔ before.Declares l i := by
  simp only [Declares, List.getElem?_append_left h]

theorem jumpsTo_append_left (h : i < before.length) :
    JumpsTo (before ++ rest) l i ↔ before.JumpsTo l i := by
  simp only [JumpsTo, List.getElem?_append_left h]

end Before

end Program

/-! ## Where a pass stops -/

namespace LabelTable

theorem exists_of_collect_error {d : Diagnostic} {p : Program} :
    ∀ {t : LabelTable} {place : Nat}, t.collect place p = .error d →
      ∃ before s rest t' l decl, p = before ++ s :: rest ∧ t.collect place before = .ok t' ∧
        s.action = .label l ∧ t'.find? l = some decl ∧
        d = ⟨s.line, .static (.duplicateLabel l decl.line)⟩ := by
  induction p with
  | nil => intro t place h; cases h
  | cons s rest ih =>
    intro t place h
    rw [collect_cons] at h
    cases hl : s.action.label? with
    | none =>
      simp only [hl] at h
      obtain ⟨before, s', rest', t', l, decl, rfl, hc, ha, hf, rfl⟩ := ih h
      refine ⟨s :: before, s', rest', t', l, decl, rfl, ?_, ha, hf, rfl⟩
      simpa only [collect_cons, hl] using hc
    | some l =>
      simp only [hl] at h
      cases hf : t.find? l with
      | some decl =>
        simp only [hf] at h
        cases h
        exact ⟨[], s, rest, t, l, decl, rfl, rfl, Action.label?_eq_some_iff.mp hl, hf, rfl⟩
      | none =>
        simp only [hf] at h
        obtain ⟨before, s', rest', t', l', decl, rfl, hc, ha, hf', rfl⟩ := ih h
        refine ⟨s :: before, s', rest', t', l', decl, rfl, ?_, ha, hf', rfl⟩
        simpa only [collect_cons, hl, hf] using hc

theorem exists_of_checkJumps_error {t : LabelTable} {d : Diagnostic} {p : Program}
    (h : t.checkJumps p = .error d) :
    ∃ before s rest l e, p = before ++ s :: rest ∧ t.checkJumps before = .ok () ∧
      s.action = .goTo l e ∧ t.find? l = none ∧ d = ⟨s.line, .static (.undefinedLabel l)⟩ := by
  induction p with
  | nil => cases h
  | cons s rest ih =>
    rw [checkJumps_cons] at h
    cases hl : s.action.target? with
    | none =>
      simp only [hl] at h
      obtain ⟨before, s', rest', l, e, rfl, hc, ha, hf, rfl⟩ := ih h
      refine ⟨s :: before, s', rest', l, e, rfl, ?_, ha, hf, rfl⟩
      simpa only [checkJumps_cons, hl] using hc
    | some l =>
      simp only [hl] at h
      cases hf : t.find? l with
      | some decl =>
        simp only [hf] at h
        obtain ⟨before, s', rest', l', e, rfl, hc, ha, hf', rfl⟩ := ih h
        refine ⟨s :: before, s', rest', l', e, rfl, ?_, ha, hf', rfl⟩
        simpa only [checkJumps_cons, hl, hf] using hc
      | none =>
        simp only [hf] at h
        cases h
        obtain ⟨e, ha⟩ := Action.target?_eq_some_iff.mp hl
        exact ⟨[], s, rest, l, e, rfl, rfl, ha, hf, rfl⟩

/-- The labels before the one that is declared twice are distinct, so the table has the statement
that declared it first. -/
theorem clash_of_collect {p : Program} {d : Diagnostic} (h : collect ⟨[]⟩ 0 p = .error d) :
    p.FirstClash d := by
  obtain ⟨before, s', rest, t, l, decl, rfl, hc, ha', hf, rfl⟩ := exists_of_collect_error h
  obtain ⟨_, hn, rfl⟩ := collect_eq_ok_iff.mp hc
  have hl : decl.label = l := by simpa using List.find?_some hf
  obtain ⟨i, s, hs, ha, _, hline⟩ :=
    Program.exists_stmt_of_mem_declarations (List.mem_of_find?_eq_some hf)
  rw [hl] at ha
  have hi : i < before.length := (List.getElem?_eq_some_iff.mp hs).1
  refine ⟨l, i, before.length, s, s', hi, ?_, ha, by simp, ha', ?_, ?_, by rw [hline]⟩
  · rw [List.getElem?_append_left hi, hs]
  · intro k hk hdecl
    have hdecl := (Program.declares_append_left (by omega)).mp hdecl
    have := Program.Declares.unique hn hdecl ⟨s, hs, ha⟩
    omega
  · rintro k l' hk ⟨hdecl, i', hi', hdecl'⟩
    have hdecl := (Program.declares_append_left hk).mp hdecl
    have hdecl' := (Program.declares_append_left (by omega)).mp hdecl'
    have := Program.Declares.unique hn hdecl' hdecl
    omega

theorem stray_of_checkJumps {p : Program} {d : Diagnostic} (h : p.table.checkJumps p = .error d) :
    p.FirstStray d := by
  obtain ⟨before, s, rest, l, e, hp, hc, ha, hf, rfl⟩ := exists_of_checkJumps_error h
  refine ⟨l, e, before.length, s, by simp [hp], ha, ?_, ?_, rfl⟩
  · intro i hi
    exact Program.find?_table_eq_none_iff.mp hf (Program.mem_declared_iff.mpr ⟨i, hi⟩)
  · intro k l' hk hj
    rw [hp, Program.jumpsTo_append_left hk] at hj
    have hmem := checkJumps_eq_ok_iff.mp hc l' (Program.mem_targets_iff.mpr ⟨k, hj⟩)
    rw [ne_eq, Program.find?_table_eq_none_iff, Decidable.not_not] at hmem
    exact Program.mem_declared_iff.mp hmem

end LabelTable

namespace Program

theorem clash_or_stray_of_labels {p : Program} {d : Diagnostic} (h : p.labels = .error d) :
    p.FirstClash d ∨ p.declared.Nodup ∧ p.FirstStray d := by
  unfold labels at h
  split at h
  · rename_i d' hc
    cases h
    exact .inl (LabelTable.clash_of_collect hc)
  · rename_i t hc
    obtain ⟨_, hn, ht⟩ := LabelTable.collect_eq_ok_iff.mp hc
    obtain rfl : t = p.table := ht
    split at h
    · rename_i d' hj
      cases h
      exact .inr ⟨hn, LabelTable.stray_of_checkJumps hj⟩
    · cases h

theorem distinct_iff_nodup {p : Program} : p.Distinct ↔ p.declared.Nodup := by
  constructor
  · intro hd
    cases hl : p.labels with
    | ok t => exact (labels_eq_ok_iff.mp hl).1
    | error d =>
      rcases clash_or_stray_of_labels hl with hc | ⟨hn, _⟩
      · exact absurd hd hc.not_distinct
      · exact hn
  · intro hn l i j hi hj
    exact hi.unique hn hj

theorem size_table (p : Program) :
    p.table.size = p.countP fun s => s.action.label?.isSome := by
  rw [LabelTable.size, ← List.length_map (f := Declaration.label), table, map_label_declarations,
    declared, List.length_filterMap_eq_countP]

/-- The labels of a program give a table exactly when none is declared twice and every jump has one
to go to. The table has the place of every label statement and nothing else. Otherwise the first
statement that redeclares a label is reported or, if there is none, the first jump to a label that
is not declared. -/
theorem labels_exact (p : Program) :
    ((∃ t, p.labels = .ok t) ↔ p.Distinct ∧ p.Closed) ∧
    (∀ t, p.labels = .ok t → (∀ l i, t.place? l = some i ↔ p.Declares l i) ∧
      t.size = p.countP fun s => s.action.label?.isSome) ∧
    (¬ p.Distinct → ∃ d, p.labels = .error d ∧ p.FirstClash d) ∧
    (p.Distinct → ¬ p.Closed → ∃ d, p.labels = .error d ∧ p.FirstStray d) := by
  have hok : (∃ t, p.labels = .ok t) ↔ p.Distinct ∧ p.Closed := by
    simp only [labels_eq_ok_iff, distinct_iff_nodup, closed_iff]
    exact ⟨fun ⟨_, hn, ht, _⟩ => ⟨hn, ht⟩, fun ⟨hn, ht⟩ => ⟨_, hn, ht, rfl⟩⟩
  refine ⟨hok, ?_, ?_, ?_⟩
  · intro t ht
    obtain ⟨hn, _, rfl⟩ := labels_eq_ok_iff.mp ht
    exact ⟨fun l i => place?_table_eq_some_iff hn, size_table p⟩
  · intro hd
    cases hl : p.labels with
    | ok t => exact absurd (hok.mp ⟨t, hl⟩).1 hd
    | error d =>
      rcases clash_or_stray_of_labels hl with hc | ⟨hn, _⟩
      · exact ⟨d, rfl, hc⟩
      · exact absurd (distinct_iff_nodup.mpr hn) hd
  · intro hd hc
    cases hl : p.labels with
    | ok t => exact absurd (hok.mp ⟨t, hl⟩).2 hc
    | error d =>
      rcases clash_or_stray_of_labels hl with hclash | ⟨_, hs⟩
      · exact absurd hd hclash.not_distinct
      · exact ⟨d, rfl, hs⟩

end Program
end Easel
