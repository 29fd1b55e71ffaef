import Easel.Proofs.History

/-!
# Easel.Proofs.Sessions

One robot in front of one canvas, and programs executed one after the other, each from where the one
before it stopped. Whatever the programs are and however they end, what stands on the canvas is
well drawn and nothing that was there is lost (`Session.sound_and_grows`).

* `Studio.Sound`: the brush and every stroke have sizes that make sense, and a line goes straight or
  diagonally. It is kept because a statement checks its numbers before it uses them
  (`Action.Does.sound`).
* `Studio.Grows`: strokes are only ever added, and variables keep having values.
-/

namespace Easel

/-! ## Well-drawn strokes -/

/-- A step is exact, or it is not taken. -/
theorem Position.step?_toInt {p q : Position} {dx dy n : Number} (h : p.step? dx dy n = some q) :
    q.x.toInt = p.x.toInt + dx.toInt * n.toInt ∧ q.y.toInt = p.y.toInt + dy.toInt * n.toInt := by
  unfold step? at h
  split at h
  · cases h
  · rename_i mx hmx
    split at h
    · cases h
    · rename_i x hx
      split at h
      · cases h
      · rename_i my hmy
        split at h
        · cases h
        · rename_i y hy
          cases h
          simp only [Number.mul?, Number.add?, Number.ofInt?_eq_some_iff] at hmx hx hmy hy
          exact ⟨by rw [hx, hmx], by rw [hy, hmy]⟩

/-- `q` lies straight or diagonally from `p`. -/
def Position.InLine (p q : Position) : Prop :=
  ∃ d dx dy : Int, 0 ≤ d ∧ dx ∈ [-1, 0, 1] ∧ dy ∈ [-1, 0, 1] ∧
    q.x.toInt = p.x.toInt + d * dx ∧ q.y.toInt = p.y.toInt + d * dy

/-- The sizes of the stroke make sense. -/
def Stroke.Regular : Stroke → Prop
  | .line start stop _ => start.InLine stop
  | .circle _ radius _ => 0 ≤ radius.toInt
  | .rectangle _ width height _ => 0 ≤ width.toInt ∧ 0 ≤ height.toInt
  | .fill _ _ => True

theorem Studio.Measures.nonneg {w : Studio} {e : Expr} {n : Number} (h : w.Measures e n) :
    0 ≤ n.toInt := by
  have hn : ¬ n.toInt < (0 : Number).toInt := fun hlt => h.2 (Int64.lt_iff_toInt_lt.mpr hlt)
  simpa using hn

theorem Number.mem_unit {a : Number} (h : -1 ≤ a ∧ a ≤ 1) : a.toInt ∈ [-1, 0, 1] := by
  have hl : (-1 : Number).toInt ≤ a.toInt := Int64.le_iff_toInt_le.mp h.1
  have hr : a.toInt ≤ (1 : Number).toInt := Int64.le_iff_toInt_le.mp h.2
  have h₁ : (-1 : Number).toInt = -1 := by decide
  have h₂ : (1 : Number).toInt = 1 := by decide
  simp only [List.mem_cons, List.not_mem_nil, or_false]
  omega

theorem Studio.Aims.inLine {w : Studio} {dx dy distance : Expr} {a b n : Number} {q : Position}
    (h : w.Aims dx dy distance a b n q) : w.robot.cursor.InLine q := by
  obtain ⟨hx, hy⟩ := Position.step?_toInt h.step
  obtain ⟨h₁, h₂, h₃, h₄⟩ := h.unit
  refine ⟨n.toInt, a.toInt, b.toInt, h.measures.nonneg, Number.mem_unit ⟨h₁, h₂⟩,
    Number.mem_unit ⟨h₃, h₄⟩, ?_, ?_⟩
  · rw [hx, Int.mul_comm]
  · rw [hy, Int.mul_comm]

/-! ## Sound studios -/

/-- The brush can draw, and so could the brush of every stroke on the canvas. -/
structure Studio.Sound (size : Number) (w : Studio) : Prop where
  canvas : w.canvas.size = size
  brush : 1 ≤ w.robot.brush.size.toInt
  stroke_brush : ∀ s ∈ w.canvas.strokes, 1 ≤ s.brush.size.toInt
  regular : ∀ s ∈ w.canvas.strokes, s.Regular

theorem Studio.sound_blank (size : Number) : (Studio.blank size).Sound size where
  canvas := rfl
  brush := show 1 ≤ (1 : Number).toInt by decide
  stroke_brush := by simp [blank]
  regular := by simp [blank]

/-- What a command changes the size of the brush to, and what it draws and with which brush. -/
theorem Command.Does.sound {w : Studio} {c : Command} {args : List Expr} {ev : Event}
    (h : c.Does w args ev) :
    (∀ n, ev.size? = some n → 1 ≤ n.toInt) ∧
      ∀ s, ev.stroke? = some s → s.brush = w.robot.brush ∧ s.Regular := by
  cases h with
  | spawn | color => simp [Event.size?, Event.stroke?]
  | @size e n _ hn =>
    have hlt : ¬ n.toInt ≤ (0 : Number).toInt := fun hle => hn (Int64.le_iff_toInt_le.mpr hle)
    have hzero : (0 : Number).toInt = 0 := by decide
    simp only [Event.size?, Event.stroke?, Option.some.injEq, forall_eq', reduceCtorEq,
      false_implies, implies_true, and_true]
    omega
  | drawLine ha => simp [Event.size?, Event.stroke?, Stroke.brush, Stroke.Regular, ha.inLine]
  | drawCircle ha =>
    simp [Event.size?, Event.stroke?, Stroke.brush, Stroke.Regular, ha.measures.nonneg]
  | drawRectangle _ hm hk =>
    simp [Event.size?, Event.stroke?, Stroke.brush, Stroke.Regular, hm.nonneg, hk.nonneg]
  | fill => simp [Event.size?, Event.stroke?, Stroke.brush, Stroke.Regular]

/-- A sound studio is sound after any statement. -/
theorem Action.Does.sound {w : Studio} {a : Action} {f : Flow} {ev : Event} {size : Number}
    (h : a.Does w f ev) (hw : w.Sound size) : (ev.apply w).Sound size := by
  have hev : (∀ n, ev.size? = some n → 1 ≤ n.toInt) ∧
      ∀ s, ev.stroke? = some s → s.brush = w.robot.brush ∧ s.Regular := by
    cases h with
    | command hc => exact hc.sound
    | assign | label | stay | jump | discard => simp [Event.size?, Event.stroke?]
  obtain ⟨hsize, hstroke⟩ := hev
  have hmem : ∀ s ∈ (ev.apply w).canvas.strokes,
      s ∈ w.canvas.strokes ∨ ev.stroke? = some s := by
    intro s hs
    rw [← Array.mem_toList_iff, ev.apply_strokes] at hs
    simpa using hs
  refine ⟨by simpa using hw.canvas, ?_, ?_, ?_⟩
  · rw [ev.apply_brush]
    cases hn : ev.size? with
    | none => exact hw.brush
    | some n => exact hsize n hn
  · intro s hs
    rcases hmem s hs with hs | hs
    · exact hw.stroke_brush s hs
    · rw [(hstroke s hs).1]
      exact hw.brush
  · intro s hs
    rcases hmem s hs with hs | hs
    · exact hw.regular s hs
    · exact (hstroke s hs).2

/-! ## Growing studios -/

/-- `w'` has the strokes of `w` and maybe more behind them, and a value for every variable that has
one in `w`. -/
structure Studio.Grows (w w' : Studio) : Prop where
  strokes : w.canvas.strokes.toList <+: w'.canvas.strokes.toList
  bound : ∀ x, (w.robot.valueOf? x).isSome → (w'.robot.valueOf? x).isSome

namespace Studio.Grows

theorem refl (w : Studio) : w.Grows w := ⟨List.prefix_refl _, fun _ h => h⟩

theorem trans {w w' w'' : Studio} (h : w.Grows w') (h' : w'.Grows w'') : w.Grows w'' :=
  ⟨h.strokes.trans h'.strokes, fun x hx => h'.bound x (h.bound x hx)⟩

theorem apply (ev : Event) (w : Studio) : w.Grows (ev.apply w) where
  strokes := by rw [ev.apply_strokes]; exact List.prefix_append _ _
  bound _ hx := ev.apply_valueOf?_isSome hx

end Studio.Grows

/-! ## Sessions -/

/-- What every event keeps, an execution keeps, however it ends. -/
theorem Program.Halts.preserves {P : Studio → Prop} {p : Program} {w : Studio} {o : Outcome}
    (h : p.Halts w o)
    (hstep : ∀ (a : Action) (v : Studio) (f : Flow) (ev : Event), a.Does v f ev → P v →
      P (ev.apply v))
    (hw : P w) : P o.studio := by
  rcases exists_steps_of_halts h with ⟨d, _, rfl⟩ | ⟨history, i, _, hsteps, _⟩
  · exact hw
  · exact hsteps.preserves hstep hw

/-- `Session w ps w'`: the programs of `ps`, executed one after the other, lead from `w` to `w'`.
Each starts where the one before it came to an end or failed. -/
inductive Session : Studio → List Program → Studio → Prop where
  | nil {w : Studio} : Session w [] w
  | cons {w w' : Studio} {p : Program} {ps : List Program} {o : Outcome} :
      p.Halts w o → Session o.studio ps w' → Session w (p :: ps) w'

namespace Session

variable {w w' : Studio} {ps : List Program}

theorem preserves {P : Studio → Prop} (h : Session w ps w')
    (hstep : ∀ (a : Action) (v : Studio) (f : Flow) (ev : Event), a.Does v f ev → P v →
      P (ev.apply v))
    (hw : P w) : P w' := by
  induction h with
  | nil => exact hw
  | cons hp _ ih => exact ih (hp.preserves hstep hw)

theorem grows (h : Session w ps w') : w.Grows w' :=
  h.preserves (fun _ v _ ev _ hv => hv.trans (.apply ev v)) (.refl w)

/-- At every point of a session that begins at a blank canvas the studio is sound, and from there on
it grows. -/
theorem sound_and_grows {size : Number} (h : Session (.blank size) ps w) :
    w.Sound size ∧ ∀ qs w', Session w qs w' → w.Grows w' := by
  have hblank := Studio.sound_blank size
  exact ⟨h.preserves (fun _ _ _ _ hd hv => hd.sound hv) hblank, fun qs w' hw' => hw'.grows⟩

/-- The first program fails when it has drawn a line, and the second one goes on from there. -/
theorem sound_and_grows_after_failure :
    ∃ (p q : Program) (w w' : Studio), Session (.blank 8) [p] w ∧ Session w [q] w' ∧
      p.Halts (.blank 8) (.failed ⟨3, .run .divisionByZero⟩ w) ∧
      w'.canvas.strokes = #[.line ⟨0, 0⟩ ⟨3, 3⟩ {}, .circle ⟨2, 3⟩ 1 {}] ∧
      w.Sound 8 ∧ w.Grows w' := by
  let p : Program :=
    [⟨1, .assign "n" .number (.number 3)⟩,
      ⟨2, .command .drawLine [.number 1, .number 1, .var "n"]⟩,
      ⟨3, .command .size [.binary (.var "n") (.arith .div) (.number 0)]⟩]
  let q : Program := [⟨1, .command .drawCircle [.number (-1), .number 0, .number 1]⟩]
  let w₀ : Studio := (Studio.blank 8).assign "n" (.number 3)
  let w : Studio := (w₀.draw (.line ⟨0, 0⟩ ⟨3, 3⟩ {})).moveTo ⟨3, 3⟩
  let w' : Studio := (w.draw (.circle ⟨2, 3⟩ 1 {})).moveTo ⟨2, 3⟩
  have hp : p.Halts (.blank 8) (.failed ⟨3, .run .divisionByZero⟩ w) := ⟨3, rfl⟩
  have hq : q.Halts w (.finished w') := ⟨2, rfl⟩
  have hw : Session (.blank 8) [p] w := .cons hp .nil
  have hw' : Session w [q] w' := .cons hq .nil
  obtain ⟨hsound, hgrows⟩ := sound_and_grows hw
  exact ⟨p, q, w, w', hw, hw', hp, rfl, hsound, hgrows _ _ hw'⟩

end Session
end Easel
