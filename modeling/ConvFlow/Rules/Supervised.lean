/-
# Rules under supervision

A transformation is accepted only if a comparison finds no difference between the graph before and
after it.  `apply` tells apart a rule that finds nothing to do, a change that is accepted and a
change of what the graph computes.  `run` applies a list of rules again and again, until
a whole round changes nothing or the rounds are used up.
-/
import ConvFlow.Comparison.Wording
import ConvFlow.Rules.Rule

namespace ConvFlow.Supervised

/-- Why a supervised transformation fails. -/
inductive Failure (α : Type) where
  /-- The transformation itself fails. -/
  | transform (cause : Transform.Failure)
  /-- The graphs before and after cannot be compared. -/
  | comparison (cause : Comparison.Error)
  /-- The rule changed what the graph computes. -/
  | notEquivalent (rule : String) (report : Comparison.Report α)

/-- The wording of a failure. -/
def Failure.message : Failure Float32 → String
  | transform cause => cause.message
  | comparison cause => cause.message
  | notEquivalent rule report =>
    s!"transform '{rule}' changed the graph's output: {report.message}"

/-- What came of applying a rule. -/
inductive Outcome (α : Type) where
  /-- The rule changed the graph, and the comparison found no difference. -/
  | applied (g : Graph α)
  /-- The rule left the graph as it was. -/
  | notApplicable

/-- The result of applying a list of rules. -/
structure Result (α : Type) where
  /-- The graph reached. -/
  graph : Graph α
  /-- The names of the rules that changed the graph, in the order of the changes. -/
  applied : List String

/-- The number of rounds after which applying a list of rules ends in any case. -/
def roundLimit : Nat := 16

variable {σ α : Type} [Element α]

/-- Accept the graph `h` made from `g` if both compute the same. -/
def accept (strictness : Comparison.Settings α) (rule : String) (g h : Graph α) :
    Except (Failure α) (Outcome α) :=
  if h.agrees g then .ok .notApplicable
  else do
    let report ← (Comparison.check g h strictness).mapError .comparison
    if report.isEquivalent then return .applied h
    else throw (.notEquivalent rule report)

/-- Transform the graph by a rule and compare it with the result. -/
def apply (strictness : Comparison.Settings α) (r : Rule σ α) (s : σ) (g : Graph α) :
    Except (Failure α) (Outcome α) × σ :=
  match r.transform s g with
  | (.error e, s) => (.error (.transform e), s)
  | (.ok h, s) => (accept strictness r.name g h, s)

/-- Apply each rule of a list in turn. -/
def sweep (strictness : Comparison.Settings α) :
    List (Rule σ α) → σ → Graph α → Except (Failure α) (Result α) × σ
  | [], s, g => (.ok ⟨g, []⟩, s)
  | r :: rs, s, g =>
    match apply strictness r s g with
    | (.error e, s) => (.error e, s)
    | (.ok .notApplicable, s) => sweep strictness rs s g
    | (.ok (.applied h), s) =>
      match sweep strictness rs s h with
      | (.error e, s) => (.error e, s)
      | (.ok result, s) => (.ok { result with applied := r.name :: result.applied }, s)

/-- Apply a list of rules in rounds, until a round changes nothing or no rounds are left. -/
def rounds (strictness : Comparison.Settings α) (rules : List (Rule σ α)) :
    Nat → σ → Graph α → Except (Failure α) (Result α) × σ
  | 0, s, g => (.ok ⟨g, []⟩, s)
  | n + 1, s, g =>
    match sweep strictness rules s g with
    | (.error e, s) => (.error e, s)
    | (.ok first, s) =>
      if first.applied.isEmpty then (.ok first, s)
      else
        match rounds strictness rules n s first.graph with
        | (.error e, s) => (.error e, s)
        | (.ok rest, s) => (.ok { rest with applied := first.applied ++ rest.applied }, s)

/-- Apply a list of rules until a round changes nothing, for at most `roundLimit` rounds. -/
def run (strictness : Comparison.Settings α) (rules : List (Rule σ α)) (s : σ) (g : Graph α) :
    Except (Failure α) (Result α) × σ :=
  rounds strictness rules roundLimit s g

end ConvFlow.Supervised
