/-
# Rules for transforming graphs

A rule looks for one place in a graph and changes the graph there, or declines.  It may keep a state of
its own from one call to the next, which is handed through explicitly.

`Rule.transform` applies a rule to a well-formed graph until it declines, inferring the shapes
anew after every change.  A rule that has not declined after `passLimit` changes is given up.
-/
import ConvFlow.Graph.Shapes
import ConvFlow.Graph.WellFormed

namespace ConvFlow

namespace Transform

/-- Why a transformation fails. -/
inductive Failure where
  /-- The graph is not well formed. -/
  | graph (cause : Graph.Error)
  /-- The shapes of the graph cannot be inferred. -/
  | shape (cause : Graph.ShapeError)
  /-- The rule did not decline within the given number of changes. -/
  | noFixedPoint (rule : String) (passes : Nat)
  deriving DecidableEq

/-- The wording of a failure. -/
def Failure.message : Failure → String
  | graph cause => cause.message
  | shape cause => cause.message
  | noFixedPoint rule passes =>
    s!"transform '{rule}' did not reach a fixed point after {passes} passes"

/-- The number of changes after which a transformation is given up. -/
def passLimit : Nat := 4096

end Transform

/-- A rule for graphs with elements `α`, with a state of type `σ`. -/
structure Rule (σ α : Type) where
  /-- The name of the rule. -/
  name : String
  /-- One change: the new graph, or none if the rule declines, and the new state. -/
  attempt : σ → Graph α → Except Transform.Failure (Option (Graph α)) × σ

namespace Rule

open Transform

variable {σ α : Type}

/-- A rule without state. -/
def ofFunction (name : String) (change : Graph α → Option (Graph α)) : Rule σ α where
  name
  attempt s g := (.ok (change g), s)

/-- Change the graph until the rule declines, at most `budget` times after `passes` changes so far:
the graph reached with the number of all changes, and the state. -/
def exhaust (r : Rule σ α) : (budget passes : Nat) → σ → Graph α →
    Except Failure (Graph α × Nat) × σ
  | 0, passes, s, _ => (.error (.noFixedPoint r.name passes), s)
  | budget + 1, passes, s, g =>
    match r.attempt s g with
    | (.error e, s) => (.error e, s)
    | (.ok none, s) => (.ok (g, passes), s)
    | (.ok (some g), s) =>
      match g.inferShapes with
      | .error e => (.error (.shape e), s)
      | .ok g => r.exhaust budget (passes + 1) s g

/-- What a transformation starts from: the graph, if it is well formed, with its shapes. -/
def prepare (g : Graph α) : Except Failure (Graph α) := do
  g.validate.mapError .graph
  g.inferShapes.mapError .shape

/-- What a transformation delivers: a graph that was changed has to be well formed. -/
def finish (g : Graph α) (passes : Nat) : Except Failure (Graph α) :=
  if passes = 0 then .ok g else (g.validate.mapError .graph).map fun _ => g

/-- Apply the rule to a graph until it declines. -/
def transform (r : Rule σ α) (s : σ) (g : Graph α) : Except Failure (Graph α) × σ :=
  match prepare g with
  | .error e => (.error e, s)
  | .ok g =>
    match r.exhaust passLimit 0 s g with
    | (.error e, s) => (.error e, s)
    | (.ok (g, passes), s) => (finish g passes, s)

end Rule

end ConvFlow
