import Easel.Proofs.Faults
import Easel.Proofs.Steps

/-!
# Easel.Proofs.Effects

What carrying out one statement comes to. A statement that completes causes one event, and the event
is all that happens to the studio; a statement that fails has touched nothing.

* `Command.Does`, `Action.Does`: the rules by which a statement completes, one for every command and
  every other kind of statement.
* `Action.perform_ok_iff`: a statement completes exactly by these rules. Whatever a run keeps or
  builds up is proved from them.
* `Action.perform_atomic`: a task makes all its checks before it changes anything.
-/

namespace Easel

variable {α β : Type}

/-! ## Events -/

/-- What a statement that completes does to the studio. -/
inductive Event where
  | quiet
  | bound (name : String) (v : Value)
  | moved (p : Position)
  | colored (c : Color)
  | sized (n : Number)
  | drawn (s : Stroke)

namespace Stroke

def brush : Stroke → Brush
  | .line _ _ brush => brush
  | .circle _ _ brush => brush
  | .rectangle _ _ _ brush => brush
  | .fill _ brush => brush

/-- Where a stroke leaves the robot; a fill does not move it. -/
def stop? : Stroke → Option Position
  | .line _ stop _ => some stop
  | .circle center _ _ => some center
  | .rectangle center _ _ _ => some center
  | .fill _ _ => none

end Stroke

namespace Event

def apply : Event → Studio → Studio
  | .quiet, w => w
  | .bound x v, w => w.assign x v
  | .moved p, w => w.moveTo p
  | .colored c, w => w.setColor c
  | .sized n, w => w.setSize n
  | .drawn s, w =>
    match s.stop? with
    | some p => (w.draw s).moveTo p
    | none => w.draw s

def stroke? : Event → Option Stroke
  | .drawn s => some s
  | _ => none

def color? : Event → Option Color
  | .colored c => some c
  | _ => none

def size? : Event → Option Number
  | .sized n => some n
  | _ => none

/-- The position that the robot is sent to. -/
def position? : Event → Option Position
  | .moved p => some p
  | .drawn s => s.stop?
  | _ => none

-- What an event does to each part of the studio.

theorem apply_strokes (ev : Event) (w : Studio) :
    (ev.apply w).canvas.strokes.toList = w.canvas.strokes.toList ++ ev.stroke?.toList := by
  rcases ev with _ | _ | _ | _ | _ | s
  case drawn =>
    cases s <;> simp [apply, stroke?, Stroke.stop?, Studio.draw, Canvas.draw, Studio.moveTo]
  all_goals simp [apply, stroke?, Studio.assign, Studio.moveTo, Studio.setColor, Studio.setSize]

@[simp] theorem apply_canvas_size (ev : Event) (w : Studio) :
    (ev.apply w).canvas.size = w.canvas.size := by
  rcases ev with _ | _ | _ | _ | _ | s
  case drawn => cases s <;> rfl
  all_goals rfl

theorem apply_brush (ev : Event) (w : Studio) :
    (ev.apply w).robot.brush =
      ⟨ev.color?.getD w.robot.brush.color, ev.size?.getD w.robot.brush.size⟩ := by
  rcases ev with _ | _ | _ | _ | _ | s
  case drawn => cases s <;> rfl
  all_goals rfl

theorem apply_cursor (ev : Event) (w : Studio) :
    (ev.apply w).robot.cursor = ev.position?.getD w.robot.cursor := by
  rcases ev with _ | _ | _ | _ | _ | s
  case drawn => cases s <;> rfl
  all_goals rfl

/-- No event takes a value away from a variable. -/
theorem apply_valueOf?_isSome {w : Studio} {x : String} (ev : Event)
    (h : (w.robot.valueOf? x).isSome) : ((ev.apply w).robot.valueOf? x).isSome := by
  rcases ev with _ | ⟨y, v⟩ | _ | _ | _ | s
  case bound =>
    simp only [apply, Studio.assign, Robot.valueOf?, Std.TreeMap.getElem?_insert]
    split
    · rfl
    · exact h
  case drawn => cases s <;> exact h
  all_goals exact h

end Event

/-! ## The rules -/

/-- A length is given and is not negative. -/
def Studio.Measures (w : Studio) (e : Expr) (n : Number) : Prop :=
  e.eval w = .ok (.number n) ∧ ¬ n < 0

/-- A direction and a distance are given, and `q` is where they lead the robot. -/
structure Studio.Aims (w : Studio) (dx dy distance : Expr) (a b n : Number) (q : Position) :
    Prop where
  dx_eval : dx.eval w = .ok (.number a)
  dy_eval : dy.eval w = .ok (.number b)
  unit : -1 ≤ a ∧ a ≤ 1 ∧ -1 ≤ b ∧ b ≤ 1
  measures : w.Measures distance n
  step : w.robot.cursor.step? a b n = some q

/-- `c.Does w args ev`: in the studio `w` the command completes and causes `ev`. -/
inductive Command.Does (w : Studio) : Command → List Expr → Event → Prop where
  | spawn {x y : Expr} {a b : Number} : x.eval w = .ok (.number a) → y.eval w = .ok (.number b) →
      w.canvas.contains ⟨a, b⟩ = true → Does w .spawn [x, y] (.moved ⟨a, b⟩)
  | color {s : String} {c : Color} : Color.ofName? s = some c →
      Does w .color [.text s] (.colored c)
  | size {e : Expr} {n : Number} : e.eval w = .ok (.number n) → ¬ n ≤ 0 →
      Does w .size [e] (.sized n)
  | drawLine {dx dy distance : Expr} {a b n : Number} {q : Position} :
      w.Aims dx dy distance a b n q →
      Does w .drawLine [dx, dy, distance] (.drawn (.line w.robot.cursor q w.robot.brush))
  | drawCircle {dx dy radius : Expr} {a b n : Number} {q : Position} :
      w.Aims dx dy radius a b n q →
      Does w .drawCircle [dx, dy, radius] (.drawn (.circle q n w.robot.brush))
  | drawRectangle {dx dy distance width height : Expr} {a b n m k : Number} {q : Position} :
      w.Aims dx dy distance a b n q → w.Measures width m → w.Measures height k →
      Does w .drawRectangle [dx, dy, distance, width, height]
        (.drawn (.rectangle q m k w.robot.brush))
  | fill : Does w .fill [] (.drawn (.fill w.robot.cursor w.robot.brush))

/-- `a.Does w f ev`: in the studio `w` the statement completes and causes `ev`, and the program goes
on as `f` says. -/
inductive Action.Does (w : Studio) : Action → Flow → Event → Prop where
  | assign {x : String} {ty : Ty} {e : Expr} {v : Value} : e.eval w = .ok v →
      Does w (.assign x ty e) .next (.bound x v)
  | command {c : Command} {args : List Expr} {ev : Event} : c.Does w args ev →
      Does w (.command c args) .next ev
  | label {l : String} : Does w (.label l) .next .quiet
  | stay {l : String} {e : Expr} : e.eval w = .ok (.bool false) → Does w (.goTo l e) .next .quiet
  | jump {l : String} {e : Expr} : e.eval w = .ok (.bool true) →
      Does w (.goTo l e) (.jump l) .quiet
  | discard {e : Expr} {v : Value} : e.eval w = .ok v → Does w (.discard e) .next .quiet

/-! ## Arguments that are good -/

theorem except_bind_ok_iff {ε : Type} {x : Except ε α} {f : α → Except ε β} {b : β} :
    (x >>= f) = .ok b ↔ ∃ a, x = .ok a ∧ f a = .ok b := by
  cases x with
  | error e => simp [bind, Except.bind]
  | ok a => simp [bind, Except.bind]

/-- The argument that an expression is in a studio. -/
def Expr.argument (w : Studio) (e : Expr) : Argument := ⟨e.text?, e.eval w⟩

namespace Argument

variable {w : Studio} {context what : String}

theorem number_ok_iff {e : Expr} {n : Number} :
    (e.argument w).number context = .ok n ↔ e.eval w = .ok (.number n) := by
  simp only [number, Expr.argument]
  cases e.eval w with
  | error f => simp
  | ok v => cases v <;> simp

theorem position_ok_iff {x y : Expr} {p : Position} :
    Argument.position context (x.argument w) (y.argument w) = .ok p ↔
      x.eval w = .ok (.number p.x) ∧ y.eval w = .ok (.number p.y) := by
  simp only [position, except_bind_ok_iff, number_ok_iff]
  constructor
  · rintro ⟨a, hx, b, hy, h⟩
    cases h
    exact ⟨hx, hy⟩
  · rintro ⟨hx, hy⟩
    exact ⟨p.x, hx, p.y, hy, rfl⟩

theorem direction_ok_iff {dx dy : Expr} {a b : Number} :
    Argument.direction context (dx.argument w) (dy.argument w) = .ok (a, b) ↔
      dx.eval w = .ok (.number a) ∧ dy.eval w = .ok (.number b) ∧
        -1 ≤ a ∧ a ≤ 1 ∧ -1 ≤ b ∧ b ≤ 1 := by
  simp only [direction, except_bind_ok_iff, number_ok_iff]
  constructor
  · rintro ⟨a', hx, b', hy, h⟩
    split at h
    · rename_i hunit
      cases h
      exact ⟨hx, hy, hunit⟩
    · cases h
  · rintro ⟨hx, hy, hunit⟩
    exact ⟨a, hx, b, hy, by rw [if_pos hunit]; rfl⟩

theorem length_ok_iff {e : Expr} {n : Number} :
    (e.argument w).length context what = .ok n ↔ w.Measures e n := by
  simp only [length, except_bind_ok_iff, number_ok_iff, Studio.Measures]
  constructor
  · rintro ⟨m, he, h⟩
    split at h
    · cases h
    · rename_i hm
      cases h
      exact ⟨he, hm⟩
  · rintro ⟨he, hn⟩
    exact ⟨n, he, by rw [if_neg hn]; rfl⟩

/-- Only the name of a color, written as such, is a color. -/
theorem color_ok_iff {e : Expr} {c : Color} :
    (e.argument w).color = .ok c ↔ ∃ s, e = .text s ∧ Color.ofName? s = some c := by
  cases e with
  | text s =>
    simp only [color, Expr.argument, Expr.text?]
    cases h : Color.ofName? s <;> simp [h]
  | _ =>
    simp only [color, Expr.argument, Expr.text?]
    split <;> simp

end Argument

theorem Robot.ahead_ok_iff {r : Robot} {a b n : Number} {q : Position} :
    r.ahead (a, b) n = .ok q ↔ r.cursor.step? a b n = some q := by
  unfold ahead
  cases r.cursor.step? a b n <;> simp

/-! ## Tasks that complete -/

namespace Task

variable {w w' : Studio} {b : β} {u : Unit}

theorem of_bind_ok_iff {x : Except RunFault α} {g : α → Task β} :
    (Task.of x >>= g) w = .ok b w' ↔ ∃ a, x = .ok a ∧ g a w = .ok b w' := by
  cases x with
  | error f =>
    show EStateM.Result.error f w = .ok b w' ↔ _
    simp
  | ok a =>
    show g a w = .ok b w' ↔ _
    simp

theorem get_bind (g : Studio → Task β) : (get >>= g) w = g w w := rfl

theorem modify_bind (h : Studio → Studio) (g : Unit → Task β) :
    (modify h >>= g) w = g () (h w) := rfl

theorem set_ok_iff {v : Studio} : (set v : Task Unit) w = .ok u w' ↔ w' = v := by
  show EStateM.Result.ok () v = .ok u w' ↔ _
  simp [eq_comm]

theorem modify_ok_iff {h : Studio → Studio} : (modify h : Task Unit) w = .ok u w' ↔ w' = h w := by
  show EStateM.Result.ok () (h w) = .ok u w' ↔ _
  simp [eq_comm]

theorem pure_ok_iff {a : β} : (pure a : Task β) w = .ok b w' ↔ b = a ∧ w' = w := by
  show EStateM.Result.ok a w = .ok b w' ↔ _
  simp [eq_comm]

theorem throw_ok_iff {f : RunFault} : (throw f : Task β) w = .ok b w' ↔ False := by
  show EStateM.Result.error f w = .ok b w' ↔ _
  simp

end Task

/-! ## Statements that complete -/

namespace Command

variable {w w' : Studio} {u : Unit}

theorem spawn_ok_iff {x y : Expr} :
    perform .spawn [x.argument w, y.argument w] w = .ok u w' ↔
      ∃ ev, Does w .spawn [x, y] ev ∧ w' = ev.apply w := by
  simp only [perform, Task.of_bind_ok_iff, Task.get_bind, Argument.position_ok_iff]
  constructor
  · rintro ⟨p, ⟨hx, hy⟩, h⟩
    split at h
    · rename_i hc
      exact ⟨_, .spawn hx hy hc, Task.set_ok_iff.mp h⟩
    · exact (Task.throw_ok_iff.mp h).elim
  · rintro ⟨_, @⟨_, _, a, b, hx, hy, hc⟩, rfl⟩
    refine ⟨⟨a, b⟩, ⟨hx, hy⟩, ?_⟩
    rw [if_pos hc]
    exact Task.set_ok_iff.mpr rfl

theorem color_ok_iff {e : Expr} :
    perform .color [e.argument w] w = .ok u w' ↔
      ∃ ev, Does w .color [e] ev ∧ w' = ev.apply w := by
  simp only [perform, Task.of_bind_ok_iff, Task.modify_ok_iff, Argument.color_ok_iff]
  constructor
  · rintro ⟨c, ⟨s, rfl, hc⟩, rfl⟩
    exact ⟨_, .color hc, rfl⟩
  · rintro ⟨_, hd, rfl⟩
    cases hd with
    | color hc => exact ⟨_, ⟨_, rfl, hc⟩, rfl⟩

theorem size_ok_iff {e : Expr} :
    perform .size [e.argument w] w = .ok u w' ↔
      ∃ ev, Does w .size [e] ev ∧ w' = ev.apply w := by
  simp only [perform, Task.of_bind_ok_iff, Argument.number_ok_iff]
  constructor
  · rintro ⟨n, he, h⟩
    split at h
    · exact (Task.throw_ok_iff.mp h).elim
    · rename_i hn
      exact ⟨_, .size he hn, Task.modify_ok_iff.mp h⟩
  · rintro ⟨_, hd, rfl⟩
    cases hd with
    | size he hn =>
      refine ⟨_, he, ?_⟩
      rw [if_neg hn]
      exact Task.modify_ok_iff.mpr rfl

theorem drawLine_ok_iff {dx dy distance : Expr} :
    perform .drawLine [dx.argument w, dy.argument w, distance.argument w] w = .ok u w' ↔
      ∃ ev, Does w .drawLine [dx, dy, distance] ev ∧ w' = ev.apply w := by
  simp only [perform, Task.of_bind_ok_iff, Prod.exists, Argument.direction_ok_iff,
    Argument.length_ok_iff, Task.get_bind, Robot.ahead_ok_iff, Task.modify_bind,
    Task.modify_ok_iff]
  constructor
  · rintro ⟨a, b, ⟨hx, hy, hunit⟩, n, hn, q, hq, rfl⟩
    exact ⟨_, .drawLine ⟨hx, hy, hunit, hn, hq⟩, rfl⟩
  · rintro ⟨_, hd, rfl⟩
    cases hd with
    | drawLine ha =>
      exact ⟨_, _, ⟨ha.dx_eval, ha.dy_eval, ha.unit⟩, _, ha.measures, _, ha.step, rfl⟩

theorem drawCircle_ok_iff {dx dy radius : Expr} :
    perform .drawCircle [dx.argument w, dy.argument w, radius.argument w] w = .ok u w' ↔
      ∃ ev, Does w .drawCircle [dx, dy, radius] ev ∧ w' = ev.apply w := by
  simp only [perform, Task.of_bind_ok_iff, Prod.exists, Argument.direction_ok_iff,
    Argument.length_ok_iff, Task.get_bind, Robot.ahead_ok_iff, Task.modify_bind,
    Task.modify_ok_iff]
  constructor
  · rintro ⟨a, b, ⟨hx, hy, hunit⟩, n, hn, q, hq, rfl⟩
    exact ⟨_, .drawCircle ⟨hx, hy, hunit, hn, hq⟩, rfl⟩
  · rintro ⟨_, hd, rfl⟩
    cases hd with
    | drawCircle ha =>
      exact ⟨_, _, ⟨ha.dx_eval, ha.dy_eval, ha.unit⟩, _, ha.measures, _, ha.step, rfl⟩

theorem drawRectangle_ok_iff {dx dy distance width height : Expr} :
    perform .drawRectangle
        ([dx, dy, distance, width, height].map (Expr.argument w)) w = .ok u w' ↔
      ∃ ev, Does w .drawRectangle [dx, dy, distance, width, height] ev ∧ w' = ev.apply w := by
  simp only [List.map_cons, List.map_nil, perform, Task.of_bind_ok_iff, Prod.exists,
    Argument.direction_ok_iff, Argument.length_ok_iff, Task.get_bind, Robot.ahead_ok_iff,
    Task.modify_bind, Task.modify_ok_iff]
  constructor
  · rintro ⟨a, b, ⟨hx, hy, hunit⟩, n, hn, m, hm, k, hk, q, hq, rfl⟩
    exact ⟨_, .drawRectangle ⟨hx, hy, hunit, hn, hq⟩ hm hk, rfl⟩
  · rintro ⟨_, hd, rfl⟩
    cases hd with
    | drawRectangle ha hm hk =>
      exact ⟨_, _, ⟨ha.dx_eval, ha.dy_eval, ha.unit⟩, _, ha.measures, _, hm, _, hk, _, ha.step, rfl⟩

theorem fill_ok_iff :
    perform .fill [] w = .ok u w' ↔ ∃ ev, Does w .fill [] ev ∧ w' = ev.apply w := by
  simp only [perform, Task.modify_ok_iff]
  constructor
  · rintro rfl
    exact ⟨_, .fill, rfl⟩
  · rintro ⟨_, ⟨⟩, rfl⟩
    rfl

theorem perform_of_length_ne {c : Command} {args : List Argument}
    (h : args.length ≠ c.params.length) :
    c.perform args = throw (.argumentCount c.keyword c.params.length args.length) := by
  unfold perform
  split
  case h_8 => rfl
  all_goals exact absurd rfl h

theorem Does.length_eq {c : Command} {args : List Expr} {ev : Event} (h : c.Does w args ev) :
    args.length = c.params.length := by
  cases h <;> rfl

/-- A command completes exactly by its rule. -/
theorem perform_ok_iff {c : Command} {args : List Expr} :
    c.perform (Expr.argumentsOf w args) w = .ok u w' ↔
      ∃ ev, c.Does w args ev ∧ w' = ev.apply w := by
  rw [Expr.argumentsOf_eq_map]
  by_cases hlen : args.length = c.params.length
  · cases c with
    | spawn => match args, hlen with | [_, _], _ => exact spawn_ok_iff
    | color => match args, hlen with | [_], _ => exact color_ok_iff
    | size => match args, hlen with | [_], _ => exact size_ok_iff
    | drawLine => match args, hlen with | [_, _, _], _ => exact drawLine_ok_iff
    | drawCircle => match args, hlen with | [_, _, _], _ => exact drawCircle_ok_iff
    | drawRectangle => match args, hlen with | [_, _, _, _, _], _ => exact drawRectangle_ok_iff
    | fill => match args, hlen with | [], _ => exact fill_ok_iff
  · constructor
    · intro h
      rw [perform_of_length_ne (by simpa using hlen)] at h
      exact (Task.throw_ok_iff.mp h).elim
    · rintro ⟨ev, h, _⟩
      exact absurd h.length_eq hlen

end Command

namespace Action

variable {w w' : Studio}

/-- A statement completes exactly by one of the rules. -/
theorem perform_ok_iff {a : Action} {f : Flow} :
    a.perform w = .ok f w' ↔ ∃ ev, a.Does w f ev ∧ w' = ev.apply w := by
  cases a with
  | assign x ty e =>
    simp only [perform, Task.get_bind, Task.of_bind_ok_iff, Task.modify_bind, Task.pure_ok_iff]
    constructor
    · rintro ⟨v, he, rfl, rfl⟩
      exact ⟨_, .assign he, rfl⟩
    · rintro ⟨_, hd, rfl⟩
      cases hd with
      | assign he => exact ⟨_, he, rfl, rfl⟩
  | command c args =>
    simp only [perform, Task.get_bind, Task.bind_ok_iff, Command.perform_ok_iff, Task.pure_ok_iff]
    constructor
    · rintro ⟨_, _, ⟨ev, hd, rfl⟩, rfl, rfl⟩
      exact ⟨ev, .command hd, rfl⟩
    · rintro ⟨ev, hd, rfl⟩
      cases hd with
      | command hd => exact ⟨(), _, ⟨ev, hd, rfl⟩, rfl, rfl⟩
  | label l =>
    simp only [perform, Task.pure_ok_iff]
    constructor
    · rintro ⟨rfl, rfl⟩
      exact ⟨_, .label, rfl⟩
    · rintro ⟨_, ⟨⟩, rfl⟩
      exact ⟨rfl, rfl⟩
  | goTo l e =>
    simp only [perform, Task.get_bind, Task.of_bind_ok_iff]
    constructor
    · rintro ⟨v, he, h⟩
      rcases v with n | (_ | _)
      · exact (Task.throw_ok_iff.mp h).elim
      · obtain ⟨rfl, rfl⟩ := Task.pure_ok_iff.mp h
        exact ⟨_, .stay he, rfl⟩
      · obtain ⟨rfl, rfl⟩ := Task.pure_ok_iff.mp h
        exact ⟨_, .jump he, rfl⟩
    · rintro ⟨_, hd, rfl⟩
      cases hd with
      | stay he => exact ⟨_, he, rfl⟩
      | jump he => exact ⟨_, he, rfl⟩
  | discard e =>
    simp only [perform, Task.get_bind, Task.of_bind_ok_iff, Task.pure_ok_iff]
    constructor
    · rintro ⟨v, he, rfl, rfl⟩
      exact ⟨_, .discard he, rfl⟩
    · rintro ⟨_, hd, rfl⟩
      cases hd with
      | discard he => exact ⟨_, he, rfl, rfl⟩

end Action

/-- A statement completes as its task does. -/
theorem Stmt.perform_ok_iff {s : Stmt} {w w' : Studio} {f : Flow} :
    s.perform w = .ok f w' ↔ ∃ ev, s.action.Does w f ev ∧ w' = ev.apply w := by
  rw [← Action.perform_ok_iff]
  unfold perform EStateM.adaptExcept
  cases s.action.perform w <;> simp

/-! ## Statements that fail -/

namespace Task

/-- Where the task fails it has changed nothing. -/
def Atomic (t : Task α) : Prop := ∀ w f w', t w = .error f w' → w' = w

theorem atomic_throw (f : RunFault) : Atomic (throw f : Task α) := by
  intro w f' w' h
  cases h
  rfl

theorem atomic_of_bind {x : Except RunFault α} {g : α → Task β} (hg : ∀ a, Atomic (g a)) :
    Atomic (Task.of x >>= g) := by
  intro w f w' h
  cases x with
  | ok a => exact hg a w f w' h
  | error f' =>
    cases h
    rfl

theorem atomic_get_bind {g : Studio → Task β} (hg : ∀ w, Atomic (g w)) : Atomic (get >>= g) :=
  fun w => hg w w

/-- A task that never fails may change what it likes. -/
theorem atomic_of_failsWith {t : Task α} (h : FailsWith (fun _ => False) t) : Atomic t :=
  fun w f w' ht => (h w f w' ht).elim

theorem Atomic.bind {t : Task α} {g : α → Task β} (ht : Atomic t)
    (hg : ∀ a, FailsWith (fun _ => False) (g a)) : Atomic (t >>= g) := by
  intro w f w' h
  replace h : EStateM.bind t g w = .error f w' := h
  unfold EStateM.bind at h
  cases hw : t w with
  | ok a w₁ =>
    rw [hw] at h
    exact (hg a w₁ f w' h).elim
  | error f' w₁ =>
    rw [hw] at h
    cases h
    exact ht w f w' hw

theorem atomic_modify (h : Studio → Studio) : Atomic (modify h : Task Unit) :=
  atomic_of_failsWith (failsWith_modify h)

end Task

/-- Looking ahead, drawing there and going there. -/
theorem Task.travel_atomic (direction : Number × Number) (distance : Number)
    (stroke : Position → Studio → Stroke) :
    Atomic (do
      let w ← get
      let p ← Task.of (w.robot.ahead direction distance)
      modify fun w => w.draw (stroke p w)
      modify fun w => w.moveTo p) := by
  refine atomic_get_bind fun w => atomic_of_bind fun p => ?_
  exact (atomic_modify _).bind fun _ => failsWith_modify _

/-- A command makes all its checks before it changes anything. -/
theorem Command.perform_atomic (c : Command) (args : List Argument) :
    Task.Atomic (c.perform args) := by
  unfold perform
  split
  · refine Task.atomic_of_bind fun p => Task.atomic_get_bind fun w => ?_
    split
    · exact Task.atomic_of_failsWith (Task.failsWith_set _)
    · exact Task.atomic_throw _
  · exact Task.atomic_of_bind fun _ => Task.atomic_modify _
  · refine Task.atomic_of_bind fun n => ?_
    split
    · exact Task.atomic_throw _
    · exact Task.atomic_modify _
  · exact Task.atomic_of_bind fun _ => Task.atomic_of_bind fun _ => Task.travel_atomic _ _ _
  · exact Task.atomic_of_bind fun _ => Task.atomic_of_bind fun _ => Task.travel_atomic _ _ _
  · exact Task.atomic_of_bind fun _ => Task.atomic_of_bind fun _ => Task.atomic_of_bind fun _ =>
      Task.atomic_of_bind fun _ => Task.travel_atomic _ _ _
  · exact Task.atomic_modify _
  · exact Task.atomic_throw _

theorem Action.perform_atomic (a : Action) : Task.Atomic a.perform := by
  cases a with
  | assign x ty e =>
    refine Task.atomic_get_bind fun w => Task.atomic_of_bind fun v => ?_
    exact (Task.atomic_modify _).bind fun _ => Task.failsWith_pure _
  | command c args =>
    refine Task.atomic_get_bind fun w => ?_
    exact (c.perform_atomic _).bind fun _ => Task.failsWith_pure _
  | label l => exact Task.atomic_of_failsWith (Task.failsWith_pure _)
  | goTo l e =>
    refine Task.atomic_get_bind fun w => Task.atomic_of_bind fun v => ?_
    rcases v with n | (_ | _)
    · exact Task.atomic_throw _
    · exact Task.atomic_of_failsWith (Task.failsWith_pure _)
    · exact Task.atomic_of_failsWith (Task.failsWith_pure _)
  | discard e =>
    refine Task.atomic_get_bind fun w => Task.atomic_of_bind fun v => ?_
    exact Task.atomic_of_failsWith (Task.failsWith_pure _)

/-- A statement that fails is reported on its own line and has changed nothing. -/
theorem Stmt.perform_error {s : Stmt} {w w' : Studio} {d : Diagnostic}
    (h : s.perform w = .error d w') : w' = w ∧ d.line = s.line ∧ ∃ f, d.fault = .run f := by
  obtain ⟨f, ha, rfl⟩ := perform_eq_error_iff.mp h
  exact ⟨s.action.perform_atomic w f w' ha, rfl, f, rfl⟩

end Easel
