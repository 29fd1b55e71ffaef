import Easel.Program.Labels
import Easel.Program.Perform

/-!
# Easel.Program.Run

Running a program statement by statement. `step` is one step of a run and `run` takes as many as
its fuel allows; a run that comes to its end with some fuel comes to the same end with more.
`execute` settles the labels first, so that nothing runs if they are not in order.
-/

namespace Easel

/-- Where a run stands: the place of the statement to carry out next, and the studio. -/
structure Config where
  place : Nat
  studio : Studio

inductive Outcome where
  | next (c : Config)
  /-- The program went past its last statement. -/
  | finished (w : Studio)
  | failed (d : Diagnostic) (w : Studio)
  /-- A jump was taken to a label that the table does not have. -/
  | stray (label : String) (w : Studio)

def Outcome.studio : Outcome → Studio
  | .next c => c.studio
  | .finished w => w
  | .failed _ w => w
  | .stray _ w => w

namespace Program

def step (p : Program) (t : LabelTable) (c : Config) : Outcome :=
  match p[c.place]? with
  | none => .finished c.studio
  | some s =>
    match s.perform c.studio with
    | .error d w => .failed d w
    | .ok .next w => .next ⟨c.place + 1, w⟩
    | .ok (.jump l) w =>
      match t.place? l with
      | some i => .next ⟨i, w⟩
      | none => .stray l w

/-- Takes up to `fuel` steps; `none` means that the run was not over by then. -/
def run (p : Program) (t : LabelTable) : Nat → Config → Option Outcome
  | 0, _ => none
  | fuel + 1, c =>
    match p.step t c with
    | .next c' => run p t fuel c'
    | o => some o

/-- Settles the labels of a program and runs it from its first statement. -/
def execute (fuel : Nat) (p : Program) (w : Studio) : Option Outcome :=
  match p.labels with
  | .error d => some (.failed d w)
  | .ok t => p.run t fuel ⟨0, w⟩

end Program
end Easel
