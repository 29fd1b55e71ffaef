import Easel.Program.Labels

/-!
# Easel.Proofs.Labels

The jump table in terms of the program alone. `Program.table` lists the labels of a program with
their places, whether they are in order or not; `Program.declared` and `Program.targets` name the
labels that are declared and jumped to.

* `Program.labels_eq_ok_iff`: the labels are in order exactly when none is declared twice and every
  jump has one to go to, and then the jump table is `Program.table`.
* `Program.place?_table_append_of_mem` and its companion: the table of two programs one after the
  other, by the table of each.
* `Program.place?_table_eq_some_iff`: a label has the place of the statement that declares it.
-/

namespace Easel

/-- The label that a statement declares. -/
def Action.label? : Action → Option String
  | .label l => some l
  | _ => none

theorem Action.label?_eq_some_iff {a : Action} {l : String} : a.label? = some l ↔ a = .label l := by
  cases a <;> simp [label?]

/-- The label that a statement may jump to. -/
def Action.target? : Action → Option String
  | .goTo l _ => some l
  | _ => none

theorem Action.target?_eq_some_iff {a : Action} {l : String} :
    a.target? = some l ↔ ∃ e, a = .goTo l e := by
  cases a <;> simp [target?]

namespace Program

def declared (p : Program) : List String := p.filterMap fun s => s.action.label?

def targets (p : Program) : List String := p.filterMap fun s => s.action.target?

/-- The declarations of statements the first of which stands at `place`. -/
def declarations (place : Nat) : Program → List Declaration
  | [] => []
  | s :: rest =>
    match s.action.label? with
    | some l => ⟨l, place, s.line⟩ :: declarations (place + 1) rest
    | none => declarations (place + 1) rest

def table (p : Program) : LabelTable := ⟨declarations 0 p⟩

@[simp] theorem declared_append (p q : Program) : (p ++ q).declared = p.declared ++ q.declared :=
  List.filterMap_append

@[simp] theorem targets_append (p q : Program) : (p ++ q).targets = p.targets ++ q.targets :=
  List.filterMap_append

theorem declared_cons (s : Stmt) (rest : Program) :
    declared (s :: rest) = s.action.label?.toList ++ rest.declared := by
  unfold declared
  cases h : s.action.label? <;> simp [h]

theorem targets_cons (s : Stmt) (rest : Program) :
    targets (s :: rest) = s.action.target?.toList ++ rest.targets := by
  unfold targets
  cases h : s.action.target? <;> simp [h]

@[simp] theorem map_label_declarations (p : Program) :
    ∀ place, (declarations place p).map Declaration.label = p.declared := by
  induction p with
  | nil => intro place; rfl
  | cons s rest ih =>
    intro place
    rw [declarations, declared_cons]
    cases s.action.label? <;> simp [ih]

theorem declarations_append (p q : Program) :
    ∀ place, declarations place (p ++ q) =
      declarations place p ++ declarations (place + p.length) q := by
  induction p with
  | nil => intro place; rfl
  | cons s rest ih =>
    intro place
    have hplace : place + (s :: rest).length = place + 1 + rest.length := by
      rw [List.length_cons]
      omega
    rw [List.cons_append, declarations, declarations, hplace]
    cases s.action.label? <;> simp [ih]

end Program

/-! ## Filling the table -/

namespace LabelTable

theorem find?_eq_none_iff {t : LabelTable} {l : String} :
    t.find? l = none ↔ l ∉ t.declarations.map Declaration.label := by
  simp [find?]

theorem find?_insert_eq_none_iff {t : LabelTable} {d : Declaration} {l : String} :
    (t.insert d).find? l = none ↔ t.find? l = none ∧ d.label ≠ l := by
  simp [find?, insert]

theorem collect_cons (t : LabelTable) (place : Nat) (s : Stmt) (rest : Program) :
    t.collect place (s :: rest) =
      match s.action.label? with
      | some l =>
        match t.find? l with
        | some d => .error ⟨s.line, .static (.duplicateLabel l d.line)⟩
        | none => (t.insert ⟨l, place, s.line⟩).collect (place + 1) rest
      | none => t.collect (place + 1) rest := by
  rw [collect]
  cases s.action <;> rfl

theorem checkJumps_cons (t : LabelTable) (s : Stmt) (rest : Program) :
    t.checkJumps (s :: rest) =
      match s.action.target? with
      | some l =>
        match t.find? l with
        | some _ => t.checkJumps rest
        | none => .error ⟨s.line, .static (.undefinedLabel l)⟩
      | none => t.checkJumps rest := by
  rw [checkJumps]
  cases s.action <;> rfl

/-- The labels are entered in order, and none may be there before it is entered. -/
theorem collect_eq_ok_iff {p : Program} :
    ∀ {t t' : LabelTable} {place : Nat}, t.collect place p = .ok t' ↔
      (∀ l ∈ p.declared, t.find? l = none) ∧ p.declared.Nodup ∧
        t' = ⟨t.declarations ++ p.declarations place⟩ := by
  induction p with
  | nil =>
    intro t t' place
    simp only [collect, Except.ok.injEq, Program.declared, List.filterMap_nil, List.not_mem_nil,
      false_implies, implies_true, List.nodup_nil, true_and, Program.declarations, List.append_nil]
    exact eq_comm
  | cons s rest ih =>
    intro t t' place
    rw [collect_cons, Program.declared_cons, Program.declarations]
    cases s.action.label? with
    | none => simpa using ih
    | some l =>
      cases hl : t.find? l with
      | some d => simp [hl]
      | none =>
        simp only [hl, ih, find?_insert_eq_none_iff, Option.toList_some, List.singleton_append,
          List.forall_mem_cons, true_and, List.nodup_cons]
        rw [insert, List.append_assoc, List.singleton_append]
        constructor
        · rintro ⟨hd, hn, ht⟩
          exact ⟨fun l' h => (hd l' h).1, ⟨fun h => (hd l h).2 rfl, hn⟩, ht⟩
        · rintro ⟨hd, ⟨hmem, hn⟩, ht⟩
          exact ⟨fun l' h => ⟨hd l' h, fun h' => hmem (h' ▸ h)⟩, hn, ht⟩

theorem checkJumps_eq_ok_iff {t : LabelTable} {p : Program} :
    t.checkJumps p = .ok () ↔ ∀ l ∈ p.targets, t.find? l ≠ none := by
  induction p with
  | nil => simp [checkJumps, Program.targets]
  | cons s rest ih =>
    rw [checkJumps_cons, Program.targets_cons]
    cases s.action.target? with
    | none => simpa using ih
    | some l => cases hl : t.find? l <;> simp [hl, ih]

end LabelTable

namespace Program

theorem find?_table_eq_none_iff {p : Program} {l : String} :
    p.table.find? l = none ↔ l ∉ p.declared := by
  rw [LabelTable.find?_eq_none_iff, table, map_label_declarations]

theorem labels_eq_ok_iff {p : Program} {t : LabelTable} :
    p.labels = .ok t ↔ p.declared.Nodup ∧ (∀ l ∈ p.targets, l ∈ p.declared) ∧ t = p.table := by
  have hc (t' : LabelTable) :
      LabelTable.collect ⟨[]⟩ 0 p = .ok t' ↔ p.declared.Nodup ∧ t' = p.table := by
    rw [LabelTable.collect_eq_ok_iff]
    simp [LabelTable.find?, table]
  have hj : p.table.checkJumps p = .ok () ↔ ∀ l ∈ p.targets, l ∈ p.declared := by
    simp only [LabelTable.checkJumps_eq_ok_iff, ne_eq, find?_table_eq_none_iff,
      Decidable.not_not]
  unfold labels
  cases h : LabelTable.collect ⟨[]⟩ 0 p with
  | error d =>
    have hn : ¬ p.declared.Nodup := fun hn => by
      rw [(hc p.table).mpr ⟨hn, rfl⟩] at h
      cases h
    simp [hn]
  | ok t' =>
    obtain ⟨hn, rfl⟩ := (hc t').mp h
    cases hu : p.table.checkJumps p with
    | error d =>
      have : ¬ ∀ l ∈ p.targets, l ∈ p.declared := fun ht => by
        rw [hj.mpr ht] at hu
        cases hu
      simp [hu, this]
    | ok u =>
      have ht := hj.mp hu
      simp only [hu, Except.ok.injEq, hn, true_and]
      exact ⟨fun h => ⟨ht, h.symm⟩, fun h => h.2.symm⟩

/-! ## Places -/

theorem place?_declarations_add (p : Program) (l : String) (n : Nat) :
    ∀ place, LabelTable.place? ⟨declarations (n + place) p⟩ l =
      (LabelTable.place? ⟨declarations place p⟩ l).map (n + ·) := by
  induction p with
  | nil => intro place; rfl
  | cons s rest ih =>
    intro place
    have hrest := ih (place + 1)
    simp only [LabelTable.place?, LabelTable.find?, declarations] at hrest ⊢
    rw [Nat.add_assoc]
    cases s.action.label? with
    | none => exact hrest
    | some l' =>
      by_cases hl : l' = l
      · simp [hl]
      · simpa [List.find?_cons, hl] using hrest

theorem place?_table_append (p q : Program) (l : String) :
    (p ++ q).table.place? l = (p.table.place? l).or ((q.table.place? l).map (p.length + ·)) := by
  have hq := place?_declarations_add q l p.length 0
  rw [Nat.add_zero] at hq
  simp only [table, LabelTable.place?, LabelTable.find?, declarations_append, List.find?_append,
    Nat.zero_add, Option.map_or] at hq ⊢
  rw [hq]

/-- What the first program declares stands where it stood. -/
theorem place?_table_append_of_mem {p q : Program} {l : String} (h : l ∈ p.declared) :
    (p ++ q).table.place? l = p.table.place? l := by
  rw [place?_table_append]
  cases hl : p.table.find? l with
  | none => exact absurd h (find?_table_eq_none_iff.mp hl)
  | some d => simp [LabelTable.place?, hl]

/-- What the first program does not declare stands behind it. -/
theorem place?_table_append_of_not_mem {p q : Program} {l : String} (h : l ∉ p.declared) :
    (p ++ q).table.place? l = (q.table.place? l).map (p.length + ·) := by
  rw [place?_table_append]
  simp [LabelTable.place?, find?_table_eq_none_iff.mpr h]

/-! ## Places and statements -/

/-- The statement at the place declares the label. -/
def Declares (p : Program) (l : String) (i : Nat) : Prop :=
  ∃ s, p[i]? = some s ∧ s.action = .label l

theorem Declares.lt_length {p : Program} {l : String} {i : Nat} (h : p.Declares l i) :
    i < p.length := by
  obtain ⟨s, hs, _⟩ := h
  exact (List.getElem?_eq_some_iff.mp hs).1

theorem mem_declared_iff {p : Program} {l : String} : l ∈ p.declared ↔ ∃ i, p.Declares l i := by
  rw [declared, List.mem_filterMap]
  constructor
  · rintro ⟨s, hs, hl⟩
    obtain ⟨i, hi⟩ := List.mem_iff_getElem?.mp hs
    exact ⟨i, s, hi, Action.label?_eq_some_iff.mp hl⟩
  · rintro ⟨i, s, hi, hl⟩
    exact ⟨s, List.mem_of_getElem? hi, Action.label?_eq_some_iff.mpr hl⟩

section Cons

variable {s : Stmt} {rest : Program} {l : String}

theorem declares_cons_zero : Declares (s :: rest) l 0 ↔ s.action = .label l := by
  simp [Declares]

theorem declares_cons_succ {i : Nat} : Declares (s :: rest) l (i + 1) ↔ rest.Declares l i := by
  simp [Declares]

end Cons

/-- A label that is not declared twice is declared at one place only. -/
theorem Declares.unique {p : Program} {l : String} (hn : p.declared.Nodup) :
    ∀ {i j : Nat}, p.Declares l i → p.Declares l j → i = j := by
  induction p with
  | nil =>
    rintro i j ⟨s, hs, _⟩ _
    simp at hs
  | cons s rest ih =>
    rw [declared_cons, List.nodup_append] at hn
    obtain ⟨_, hrest, hne⟩ := hn
    have hhead : ∀ {k : Nat}, s.action = .label l → ¬ Declares rest l k := by
      intro k hs hk
      refine hne l ?_ l (mem_declared_iff.mpr ⟨k, hk⟩) rfl
      simp [Action.label?_eq_some_iff.mpr hs]
    intro i j hi hj
    cases i with
    | zero =>
      cases j with
      | zero => rfl
      | succ j => exact absurd (declares_cons_succ.mp hj) (hhead (declares_cons_zero.mp hi))
    | succ i =>
      cases j with
      | zero => exact absurd (declares_cons_succ.mp hi) (hhead (declares_cons_zero.mp hj))
      | succ j => rw [ih hrest (declares_cons_succ.mp hi) (declares_cons_succ.mp hj)]

/-- An entry of the table has the place and the line of a statement that declares its label. -/
theorem exists_stmt_of_mem_declarations {p : Program} {d : Declaration} :
    ∀ {place : Nat}, d ∈ declarations place p →
      ∃ i s, p[i]? = some s ∧ s.action = .label d.label ∧ d.place = place + i ∧
        d.line = s.line := by
  induction p with
  | nil => intro place h; cases h
  | cons s rest ih =>
    intro place h
    rw [declarations] at h
    have hrest : d ∈ declarations (place + 1) rest →
        ∃ i s', (s :: rest)[i]? = some s' ∧ s'.action = .label d.label ∧ d.place = place + i ∧
          d.line = s'.line := by
      intro hd
      obtain ⟨i, s', hs, ha, hp, hline⟩ := ih hd
      exact ⟨i + 1, s', by simpa using hs, ha, by omega, hline⟩
    cases hl : s.action.label? with
    | none =>
      rw [hl] at h
      exact hrest h
    | some l =>
      rw [hl] at h
      rcases List.mem_cons.mp h with rfl | h
      · exact ⟨0, s, rfl, Action.label?_eq_some_iff.mp hl, rfl, rfl⟩
      · exact hrest h

theorem declares_of_place? {p : Program} {l : String} {i : Nat} (h : p.table.place? l = some i) :
    p.Declares l i := by
  obtain ⟨d, hd, rfl⟩ := Option.map_eq_some_iff.mp h
  have hl : d.label = l := by simpa using List.find?_some hd
  obtain ⟨j, s, hs, ha, hp, _⟩ := exists_stmt_of_mem_declarations (List.mem_of_find?_eq_some hd)
  rw [Nat.zero_add] at hp
  rw [hp, ← hl]
  exact ⟨s, hs, ha⟩

/-- A label has its place within the program. -/
theorem place?_table_lt {p : Program} {l : String} {i : Nat} (h : p.table.place? l = some i) :
    i < p.length :=
  (declares_of_place? h).lt_length

/-- If no label is declared twice, the table has the place that declares a label, and no other. -/
theorem place?_table_eq_some_iff {p : Program} {l : String} {i : Nat} (hn : p.declared.Nodup) :
    p.table.place? l = some i ↔ p.Declares l i := by
  refine ⟨declares_of_place?, fun h => ?_⟩
  cases hf : p.table.find? l with
  | none => exact absurd (mem_declared_iff.mpr ⟨i, h⟩) (find?_table_eq_none_iff.mp hf)
  | some d =>
    have hd : p.table.place? l = some d.place := by simp [LabelTable.place?, hf]
    rw [hd, (declares_of_place? hd).unique hn h]

end Program
end Easel
