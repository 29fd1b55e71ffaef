import Easel.Proofs.Dependence
import Easel.Proofs.History

/-!
# Easel.Proofs.Room

A larger canvas changes nothing but the room on it. If no query of a program is about the canvas,
then a run that ends, unless because the robot was sent off the canvas, ends in the same way on any
canvas that is not smaller, with the same robot and the same strokes
(`Program.more_room_same_run`).

The size of the canvas is looked at in one place only, where the robot is sent to a position, and a
position that lies on a canvas lies on every larger one. `Fares` compares how a task ends on the two
canvases; it is proved along the binds of a task (`Task.Scales.bind`), and from there for
statements, for steps and for runs.
-/

namespace Easel

variable {α β : Type} {m : Number}

/-- The same robot before the same strokes, on a canvas of another size. -/
def Studio.resize (m : Number) (w : Studio) : Studio :=
  { w with canvas := { w.canvas with size := m } }

theorem Canvas.contains_resize {w : Studio} {p : Position} (hm : w.canvas.size ≤ m)
    (h : w.canvas.contains p = true) : (w.resize m).canvas.contains p = true := by
  obtain ⟨hx, hx', hy, hy'⟩ := of_decide_eq_true h
  refine decide_eq_true ?_
  exact ⟨hx, Int64.lt_of_lt_of_le hx' hm, hy, Int64.lt_of_lt_of_le hy' hm⟩

/-! ## Expressions -/

/-- The answer depends on the canvas. -/
def Query.isAboutCanvas : Query → Bool
  | .canvasSize | .colorCount | .isCanvasColor => true
  | .actualX | .actualY | .isBrushColor | .isBrushSize => false

theorem Query.answer_resize {q : Query} (h : q.isAboutCanvas = false) (w : Studio)
    (args : List Argument) : q.answer w args = q.answer (w.resize m) args := by
  unfold answer
  split
  case h_3 | h_4 | h_7 => cases h
  all_goals rfl

/-- No query among the expressions is about the canvas. -/
def CanvasBlind (nodes : List Expr) : Prop :=
  ∀ q args, .call q args ∈ nodes → q.isAboutCanvas = false

theorem CanvasBlind.alike {nodes : List Expr} (h : CanvasBlind nodes) (w : Studio) :
    w.Alike (w.resize m) nodes where
  vars _ _ := rfl
  queries q args hq := q.answer_resize (h q args hq) w

/-! ## Tasks -/

/-- `Fares m r r'`: if a task ends with `r` in a studio, this is how it ends when the canvas is as
large as `m`. It ends in the same way, unless the canvas was too small. -/
inductive Fares (m : Number) :
    EStateM.Result RunFault Studio α → EStateM.Result RunFault Studio α → Prop where
  | ok {a : α} {w : Studio} : w.canvas.size ≤ m → Fares m (.ok a w) (.ok a (w.resize m))
  | error {f : RunFault} {w : Studio} : Fares m (.error f w) (.error f (w.resize m))
  | offCanvas {x y n : Number} {w : Studio} {r : EStateM.Result RunFault Studio α} :
      Fares m (.error (.outOfCanvas x y n) w) r

namespace Task

/-- More room changes nothing but the room. -/
def Scales (m : Number) (t : Task α) : Prop :=
  ∀ w : Studio, w.canvas.size ≤ m → Fares m (t w) (t (w.resize m))

theorem Scales.bind {t : Task α} {g : α → Task β} (ht : Scales m t) (hg : ∀ a, Scales m (g a)) :
    Scales m (t >>= g) := by
  intro w hw
  have h := ht w hw
  show Fares m (EStateM.bind t g w) (EStateM.bind t g (w.resize m))
  unfold EStateM.bind
  generalize t w = r, t (w.resize m) = r' at h ⊢
  cases h with
  | ok hw' => exact hg _ _ hw'
  | error => exact .error
  | offCanvas => exact .offCanvas

theorem scales_pure (a : α) : Scales m (pure a : Task α) := fun _ hw => .ok hw

theorem scales_throw (f : RunFault) : Scales m (throw f : Task α) := fun _ _ => .error

theorem scales_of (x : Except RunFault α) : Scales m (Task.of x) := by
  cases x with
  | ok a => exact scales_pure a
  | error f => exact scales_throw f

/-- A change of the studio that leaves the size of the canvas alone. -/
theorem scales_modify {h : Studio → Studio} (hsize : ∀ w, (h w).canvas.size = w.canvas.size)
    (hresize : ∀ w, h (w.resize m) = (h w).resize m) : Scales m (modify h : Task Unit) := by
  intro w hw
  show Fares m (.ok () (h w)) (.ok () (h (w.resize m)))
  rw [hresize]
  refine .ok ?_
  rw [hsize]
  exact hw

/-- What is done with the studio is the same whatever the size of the canvas. -/
theorem scales_get_bind {g : Studio → Task β} (hg : ∀ w, Scales m (g w))
    (hresize : ∀ w, g w = g (w.resize m)) : Scales m (get >>= g) := by
  intro w hw
  show Fares m (g w w) (g (w.resize m) (w.resize m))
  rw [← hresize]
  exact hg w w hw

/-- Looking ahead, drawing there and going there. -/
theorem scales_travel (direction : Number × Number) (distance : Number)
    {stroke : Position → Studio → Stroke} (h : ∀ p w, stroke p (w.resize m) = stroke p w) :
    Scales m (do
      let w ← get
      let p ← Task.of (w.robot.ahead direction distance)
      modify fun w => w.draw (stroke p w)
      modify fun w => w.moveTo p) := by
  refine scales_get_bind (fun w => (scales_of _).bind fun p => ?_) fun _ => rfl
  refine Scales.bind (scales_modify (fun _ => rfl) fun w => ?_) fun _ => ?_
  · rw [h]
    rfl
  · exact scales_modify (fun _ => rfl) fun _ => rfl

end Task

theorem Command.perform_scales (c : Command) (args : List Argument) :
    Task.Scales m (c.perform args) := by
  unfold perform
  split
  · -- The one place where the size of the canvas is looked at.
    refine (Task.scales_of _).bind fun p w hw => ?_
    show Fares m ((if w.canvas.contains p then _ else _ : Task Unit) w)
      ((if (w.resize m).canvas.contains p then _ else _ : Task Unit) (w.resize m))
    cases hc : w.canvas.contains p with
    | true =>
      rw [Canvas.contains_resize hw hc]
      exact .ok hw
    | false => exact .offCanvas
  · exact (Task.scales_of _).bind fun _ => Task.scales_modify (fun _ => rfl) fun _ => rfl
  · refine (Task.scales_of _).bind fun n => ?_
    split
    · exact Task.scales_throw _
    · exact Task.scales_modify (fun _ => rfl) fun _ => rfl
  · exact (Task.scales_of _).bind fun _ => (Task.scales_of _).bind fun _ =>
      Task.scales_travel _ _ fun _ _ => rfl
  · exact (Task.scales_of _).bind fun _ => (Task.scales_of _).bind fun _ =>
      Task.scales_travel _ _ fun _ _ => rfl
  · exact (Task.scales_of _).bind fun _ => (Task.scales_of _).bind fun _ =>
      (Task.scales_of _).bind fun _ => (Task.scales_of _).bind fun _ =>
        Task.scales_travel _ _ fun _ _ => rfl
  · exact Task.scales_modify (fun _ => rfl) fun _ => rfl
  · exact Task.scales_throw _

theorem Action.perform_scales {a : Action} (h : CanvasBlind (Expr.nodesAll a.exprs)) :
    Task.Scales m a.perform := by
  have heval (w : Studio) {e : Expr} (he : e ∈ a.exprs) : e.eval w = e.eval (w.resize m) :=
    e.eval_congr ((h.alike w).mono (Expr.nodes_subset_nodesAll he))
  cases a with
  | assign x ty e =>
    refine Task.scales_get_bind (fun w => (Task.scales_of _).bind fun v => ?_) fun w => ?_
    · exact Task.Scales.bind (Task.scales_modify (fun _ => rfl) fun _ => rfl) fun _ =>
        Task.scales_pure _
    · rw [heval w (by simp [exprs])]
  | command c args =>
    have hargs (w : Studio) : Expr.argumentsOf w args = Expr.argumentsOf (w.resize m) args :=
      Expr.argumentsOf_congr fun e he => (h.alike w).mono (Expr.nodes_subset_nodesAll he)
    refine Task.scales_get_bind (fun w => ?_) fun w => ?_
    · exact (c.perform_scales _).bind fun _ => Task.scales_pure _
    · rw [hargs]
  | label l => exact Task.scales_pure _
  | goTo l e =>
    refine Task.scales_get_bind (fun w => (Task.scales_of _).bind fun v => ?_) fun w => ?_
    · rcases v with n | (_ | _)
      · exact Task.scales_throw _
      · exact Task.scales_pure _
      · exact Task.scales_pure _
    · rw [heval w (by simp [exprs])]
  | discard e =>
    refine Task.scales_get_bind (fun w => (Task.scales_of _).bind fun v => ?_) fun w => ?_
    · exact Task.scales_pure _
    · rw [heval w (by simp [exprs])]

/-! ## Runs -/

namespace Outcome

def resize (m : Number) : Outcome → Outcome
  | .next c => .next ⟨c.place, c.studio.resize m⟩
  | .finished w => .finished (w.resize m)
  | .failed d w => .failed d (w.resize m)
  | .stray l w => .stray l (w.resize m)

/-- The robot was sent off the canvas. -/
def OffCanvas (o : Outcome) : Prop :=
  ∃ line x y n w, o = .failed ⟨line, .run (.outOfCanvas x y n)⟩ w

end Outcome

namespace Program

variable {p : Program} {t : LabelTable}

/-- One step. -/
theorem step_resize (hp : CanvasBlind p.nodes) {c : Config} (hc : c.studio.canvas.size ≤ m) :
    (p.step t c).OffCanvas ∨ p.step t ⟨c.place, c.studio.resize m⟩ = (p.step t c).resize m := by
  unfold step
  cases hs : p[c.place]? with
  | none => exact .inr rfl
  | some s =>
    have hblind : CanvasBlind (Expr.nodesAll s.action.exprs) := by
      intro q args hq
      exact hp q args (List.mem_flatMap.mpr ⟨s, List.mem_of_getElem? hs, hq⟩)
    have hfares := Action.perform_scales hblind c.studio hc
    simp only [Stmt.perform, EStateM.adaptExcept]
    generalize s.action.perform c.studio = r, s.action.perform (c.studio.resize m) = r'
      at hfares ⊢
    cases hfares with
    | @ok f w _ =>
      cases f with
      | next => exact .inr rfl
      | jump l =>
        refine .inr ?_
        simp only
        cases t.place? l <;> rfl
    | error => exact .inr rfl
    | offCanvas => exact .inl ⟨_, _, _, _, _, rfl⟩

theorem canvas_size_of_step {c c' : Config} (h : p.step t c = .next c') :
    c'.studio.canvas.size = c.studio.canvas.size := by
  obtain ⟨s, hs, _⟩ := step_eq_next_iff.mp h
  obtain ⟨f, ev, _, hw⟩ := does_of_step hs h
  rw [hw, Event.apply_canvas_size]

/-- The runs stay side by side until one of them ends, and then so does the other. -/
theorem run_resize (hp : CanvasBlind p.nodes) {o : Outcome} (ho : ¬ o.OffCanvas) {fuel : Nat} :
    ∀ {c : Config}, c.studio.canvas.size ≤ m → p.run t fuel c = some o →
      p.run t fuel ⟨c.place, c.studio.resize m⟩ = some (o.resize m) := by
  induction fuel with
  | zero => intro c _ h; cases h
  | succ fuel ih =>
    intro c hc h
    simp only [run] at h ⊢
    have hoff : ¬ (p.step t c).OffCanvas := by
      rintro ⟨line, x, y, n, w, hs⟩
      rw [hs] at h
      exact ho ⟨line, x, y, n, w, (Option.some.inj h).symm⟩
    rw [(step_resize hp hc).resolve_left hoff]
    cases hs : p.step t c with
    | next c' =>
      rw [hs] at h
      refine ih ?_ h
      rw [canvas_size_of_step hs]
      exact hc
    | finished w => rw [hs] at h; cases h; rfl
    | failed d w => rw [hs] at h; cases h; rfl
    | stray l w => rw [hs] at h; cases h; rfl

/-- If no query of a program is about the canvas, an execution that ends on a canvas ends in the
same way on every canvas that is not smaller, unless the robot was sent off the first one. The robot
and the strokes are the same in the end. -/
theorem more_room_same_run {p : Program} (hp : CanvasBlind p.nodes) {w : Studio} {m : Number}
    (hm : w.canvas.size ≤ m) {o : Outcome} (ho : p.Halts w o) (hin : ¬ o.OffCanvas) :
    p.Halts (w.resize m) (o.resize m) := by
  obtain ⟨fuel, hf⟩ := ho
  refine ⟨fuel, ?_⟩
  unfold execute at hf ⊢
  split at hf
  · cases hf
    rfl
  · exact run_resize (c := ⟨0, w⟩) hp hin hm hf

/-- A loop that leaves the canvas by drawing and ends when its brush vanishes. Its only query is
about the robot, and so it ends in the same way with more room. -/
theorem more_room_same_run_beyond_the_edge :
    ∃ (p : Program) (w' : Studio) (o : Outcome),
      CanvasBlind p.nodes ∧ o = .failed ⟨4, .run (.invalidBrushSize 0)⟩ w' ∧
      p.Halts (.blank 3) o ∧ ¬ o.OffCanvas ∧ (Studio.blank 3).canvas.size ≤ 100 ∧
      w'.canvas.size = 3 ∧ w'.robot.cursor = ⟨4, 2⟩ ∧
      w'.canvas.strokes = #[.line ⟨2, 2⟩ ⟨3, 2⟩ {}, .line ⟨3, 2⟩ ⟨4, 2⟩ {}] ∧
      p.Halts (.blank 100) (.failed ⟨4, .run (.invalidBrushSize 0)⟩ (w'.resize 100)) := by
  let p : Program :=
    [⟨1, .command .spawn [.number 2, .number 2]⟩, ⟨2, .label "on"⟩,
      ⟨3, .command .drawLine [.number 1, .number 0, .number 1]⟩,
      ⟨4, .command .size [.binary (.number 4) (.arith .sub) (.call .actualX [])]⟩,
      ⟨5, .goTo "on" (.bool true)⟩]
  let w' : Studio :=
    ⟨{ cursor := ⟨4, 2⟩ }, ⟨3, #[.line ⟨2, 2⟩ ⟨3, 2⟩ {}, .line ⟨3, 2⟩ ⟨4, 2⟩ {}]⟩⟩
  have hp : CanvasBlind p.nodes := by
    intro q args hq
    obtain ⟨rfl, _⟩ : q = .actualX ∧ args = [] := by
      simpa [p, nodes, Action.exprs, Expr.nodes, Expr.nodesAll] using hq
    rfl
  have ho : p.Halts (.blank 3) (.failed ⟨4, .run (.invalidBrushSize 0)⟩ w') := ⟨8, rfl⟩
  have hin : ¬ (Outcome.failed ⟨4, .run (.invalidBrushSize 0)⟩ w').OffCanvas := by
    rintro ⟨_, _, _, _, _, h⟩
    cases h
  have hm : (Studio.blank 3).canvas.size ≤ 100 := by decide
  have hmore : p.Halts ((Studio.blank 3).resize 100) _ := more_room_same_run hp hm ho hin
  exact ⟨p, w', _, hp, rfl, ho, hin, hm, rfl, rfl, rfl, hmore⟩

end Program
end Easel
