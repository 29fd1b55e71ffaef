import Easel.Proofs.History

/-!
# Easel.Proofs.Strokes

The strokes on the canvas as an account of the run. Every statement that completes causes one event,
and from the list of events the strokes can be told one by one: which statement drew it, with which
brush, and from where.

* `latest`: the value that the last event of a list has given, if one of them gave any.
* `Recounts`: what the strokes say about the history of a run.
* `Program.strokes_recount_history`: every run is recounted by its strokes.
-/

namespace Easel

variable {α : Type}

/-- The command that draws a stroke of this kind. -/
def Stroke.command : Stroke → Command
  | .line _ _ _ => .drawLine
  | .circle _ _ _ => .drawCircle
  | .rectangle _ _ _ _ => .drawRectangle
  | .fill _ _ => .fill

/-- Where the robot stood when the stroke was made, if the stroke keeps it. -/
def Stroke.start? : Stroke → Option Position
  | .line start _ _ => some start
  | .circle _ _ _ => none
  | .rectangle _ _ _ _ => none
  | .fill start _ => some start

def Command.draws : Command → Bool
  | .drawLine | .drawCircle | .drawRectangle | .fill => true
  | .spawn | .color | .size => false

/-- The command of a statement that draws. -/
def Action.drawing? : Action → Option Command
  | .command c _ => if c.draws then some c else none
  | _ => none

/-! ## What one event says -/

variable {w : Studio} {ev : Event} {s : Stroke} {f : Flow}

/-- A statement draws exactly if its event is a stroke, and the stroke is of its kind. -/
theorem Action.Does.drawing?_eq {a : Action} (h : a.Does w f ev) :
    a.drawing? = ev.stroke?.map Stroke.command := by
  cases h with
  | command hc => cases hc <;> rfl
  | assign _ => rfl
  | label => rfl
  | stay _ => rfl
  | jump _ => rfl
  | discard _ => rfl

theorem Action.Does.brush_eq {a : Action} (h : a.Does w f (.drawn s)) :
    s.brush = w.robot.brush := by
  cases h with
  | command hc => cases hc <;> rfl

theorem Action.Does.start_eq {a : Action} {q : Position} (h : a.Does w f (.drawn s))
    (hq : s.start? = some q) : q = w.robot.cursor := by
  cases h with
  | command hc => cases hc <;> cases hq <;> rfl

/-! ## Lists of events -/

/-- What the last of the events that `g` speaks of says, and `start` if there is none. -/
def latest (g : Event → Option α) (start : α) (events : List Event) : α :=
  (events.filterMap g).getLastD start

theorem latest_cons (g : Event → Option α) (start : α) (events : List Event) :
    latest g start (ev :: events) = latest g ((g ev).getD start) events := by
  unfold latest
  cases hg : g ev with
  | none => rw [List.filterMap_cons_none hg, Option.getD_none]
  | some a => rw [List.filterMap_cons_some hg, List.getLastD_cons, Option.getD_some]

/-- `Recounts history events w w'`: the statements of `history` have caused `events`, and the
strokes that `w'` has and `w` has not are those of the events. Each has the color and the size that
were set last before it, and starts where the robot was sent last. -/
structure Recounts (history : List Deed) (events : List Event) (w w' : Studio) : Prop where
  caused : List.Forall₂ (fun d ev => ∃ f, d.stmt.action.Does d.before f ev) history events
  strokes : w'.canvas.strokes.toList = w.canvas.strokes.toList ++ events.filterMap Event.stroke?
  kinds : (events.filterMap Event.stroke?).map Stroke.command =
    history.filterMap fun d => d.stmt.action.drawing?
  brush : ∀ before s after, events = before ++ .drawn s :: after →
    s.brush = ⟨latest Event.color? w.robot.brush.color before,
      latest Event.size? w.robot.brush.size before⟩
  start : ∀ before s after q, events = before ++ .drawn s :: after → s.start? = some q →
    q = latest Event.position? w.robot.cursor before
  cursor : w'.robot.cursor = latest Event.position? w.robot.cursor events

namespace Recounts

theorem nil (w : Studio) : Recounts [] [] w w where
  caused := .nil
  strokes := by simp
  kinds := rfl
  brush before s after h := by simp at h
  start before s after q h := by simp at h
  cursor := rfl

/-- One statement before the others. A stroke of the others looks back past `ev`, which has given
them the studio they begin with. -/
theorem cons {st : Stmt} {history : List Deed} {events : List Event} {w' : Studio}
    (hd : st.action.Does w f ev) (h : Recounts history events (ev.apply w) w') :
    Recounts (⟨st, w⟩ :: history) (ev :: events) w w' where
  caused := .cons ⟨f, hd⟩ h.caused
  strokes := by
    rw [h.strokes, ev.apply_strokes]
    cases hs : ev.stroke? <;> simp [hs]
  kinds := by
    have hk := h.kinds
    have hdr := hd.drawing?_eq
    cases hs : ev.stroke? <;> simp_all
  brush before s after heq := by
    cases before with
    | nil =>
      obtain ⟨rfl, rfl⟩ := List.cons_eq_cons.mp heq
      exact hd.brush_eq
    | cons ev' before =>
      obtain ⟨rfl, rfl⟩ := List.cons_eq_cons.mp heq
      rw [h.brush before s after rfl, latest_cons, latest_cons, ev.apply_brush]
  start before s after q heq hq := by
    cases before with
    | nil =>
      obtain ⟨rfl, rfl⟩ := List.cons_eq_cons.mp heq
      exact hd.start_eq hq
    | cons ev' before =>
      obtain ⟨rfl, rfl⟩ := List.cons_eq_cons.mp heq
      rw [h.start before s after q rfl hq, latest_cons, ev.apply_cursor]
  cursor := by rw [h.cursor, latest_cons, ev.apply_cursor]

end Recounts

namespace Program

theorem Steps.recounts {p : Program} {t : LabelTable} {c c' : Config} {history : List Deed}
    (h : Steps p t c history c') : ∃ events, Recounts history events c.studio c'.studio := by
  induction h with
  | refl => exact ⟨[], .nil _⟩
  | cons hs hstep _ ih =>
    obtain ⟨f, ev, hd, hw⟩ := does_of_step hs hstep
    obtain ⟨events, hev⟩ := ih
    rw [hw] at hev
    exact ⟨ev :: events, hev.cons hd⟩

/-- The strokes recount the statements that have completed, at every point of a run and when the run
is over. -/
theorem strokes_recount_history :
    (∀ (p : Program) (t : LabelTable) (c c' : Config) (history : List Deed),
      Steps p t c history c' → ∃ events, Recounts history events c.studio c'.studio) ∧
    (∀ (p : Program) (w : Studio) (o : Outcome), p.Halts w o →
      (∃ d, p.labels = .error d ∧ o = .failed d w) ∨
      ∃ history events i, p.labels = .ok p.table ∧
        Steps p p.table ⟨0, w⟩ history ⟨i, o.studio⟩ ∧ p.step p.table ⟨i, o.studio⟩ = o ∧
        Recounts history events w o.studio) := by
  refine ⟨fun p t c c' history h => h.recounts, ?_⟩
  intro p w o h
  rcases exists_steps_of_halts h with hl | ⟨history, i, hl, hsteps, hlast⟩
  · exact .inl hl
  · obtain ⟨events, hev⟩ := hsteps.recounts
    exact .inr ⟨history, events, i, hl, hsteps, hlast, hev⟩

/-- Two lines drawn by one statement, with the brush that the statement between them has set, and a
fill where the second one stops. -/
theorem strokes_recount_history_of_loop :
    ∃ (p : Program) (w : Studio) (history : List Deed) (events : List Event),
      p.Halts (.blank 8) (.finished w) ∧ Recounts history events (.blank 8) w ∧
      w.canvas.strokes = #[.line ⟨1, 2⟩ ⟨2, 2⟩ ⟨.red, 1⟩, .line ⟨2, 2⟩ ⟨3, 2⟩ ⟨.red, 2⟩,
        .fill ⟨3, 2⟩ ⟨.red, 3⟩] ∧
      (history.filterMap fun d => d.stmt.action.drawing?) = [.drawLine, .drawLine, .fill] := by
  let p : Program :=
    [⟨1, .command .spawn [.number 1, .number 2]⟩, ⟨2, .command .color [.text "Red"]⟩,
      ⟨3, .label "on"⟩, ⟨4, .command .drawLine [.number 1, .number 0, .number 1]⟩,
      ⟨5, .command .size [.call .actualX []]⟩,
      ⟨6, .goTo "on" (.binary (.call .actualX []) (.order .lt) (.number 3))⟩,
      ⟨7, .command .fill []⟩]
  let strokes : Array Stroke :=
    #[.line ⟨1, 2⟩ ⟨2, 2⟩ ⟨.red, 1⟩, .line ⟨2, 2⟩ ⟨3, 2⟩ ⟨.red, 2⟩, .fill ⟨3, 2⟩ ⟨.red, 3⟩]
  let w : Studio := ⟨{ brush := ⟨.red, 3⟩, cursor := ⟨3, 2⟩ }, ⟨8, strokes⟩⟩
  have hp : p.Halts (.blank 8) (.finished w) := ⟨12, rfl⟩
  obtain ⟨d, _, ho⟩ | ⟨history, events, i, _, _, _, hr⟩ :=
    strokes_recount_history.2 p (.blank 8) (.finished w) hp
  · cases ho
  · have hs : strokes.toList = events.filterMap Event.stroke? := hr.strokes
    refine ⟨p, w, history, events, hp, hr, rfl, ?_⟩
    rw [← hr.kinds, ← hs]
    rfl

end Program
end Easel
