/-
# Spot checks of equivalence

Two graphs are run on the same inputs, and their outputs are compared position by position.
`check` draws the inputs from a seeded stream as often as asked, at least once, and reports every
output of every sample that differs.  Agreement is evidence, not a proof.
-/
import ConvFlow.Execution
import ConvFlow.Comparison.Sample
import ConvFlow.Comparison.Tolerance

namespace ConvFlow.Comparison

open Sampling

/-- Why two graphs cannot be compared. -/
inductive Error where
  /-- One of them cannot be executed. -/
  | execution (cause : Execution.Error)
  /-- They deliver different numbers of outputs. -/
  | outputCount (reference candidate : Nat)
  deriving DecidableEq

/-- The wording of an error. -/
def Error.message : Error → String
  | execution cause => cause.message
  | outputCount reference candidate =>
    s!"graphs declare different output counts: {reference} vs {candidate}"

/-- How often and how strictly graphs are compared. -/
structure Settings (α : Type) where
  /-- The number of samples; zero counts as one. -/
  samples : Nat
  /-- The seed of the random inputs. -/
  seed : UInt64
  /-- When elements count as equal. -/
  tolerance : Tolerance α

/-- The settings that apply if none are given. -/
def Settings.standard : Settings Float32 := ⟨1, 0, .standard⟩

/-- An output that differs. -/
structure Finding (α : Type) where
  /-- The name of the output in the reference graph. -/
  output : String
  /-- The number of the sample. -/
  sample : Nat
  /-- How the output differs. -/
  divergence : Divergence α

/-- The result of comparing two graphs. -/
structure Report (α : Type) where
  /-- The number of samples. -/
  samples : Nat
  /-- The number of outputs compared in each sample. -/
  outputsCompared : Nat
  /-- The outputs that differ, by sample and then by position. -/
  findings : List (Finding α)

/-- Whether no difference was found. -/
def Report.isEquivalent {α : Type} (r : Report α) : Bool := r.findings.isEmpty

variable {α : Type} [Element α]

/-- Compare the outputs of two runs, given as the names of the outputs with their values. -/
def compareOutputs (tol : Tolerance α) (sample : Nat) (names : List (String × String))
    (expected actual : NameMap (Tensor α)) : List (Finding α) :=
  names.filterMap fun (a, b) =>
    match expected[a]?, actual[b]? with
    | some e, some t => (compare tol e t).map fun d => ⟨a, sample, d⟩
    | _, _ => none

/-- Run both graphs on the same inputs and compare their outputs. -/
def compareRuns (reference candidate : Graph α) (tol : Tolerance α) (sample : Nat)
    (inputs : NameMap (Tensor α)) : Except Error (List (Finding α)) :=
  if reference.outputs.length ≠ candidate.outputs.length then
    .error (.outputCount reference.outputs.length candidate.outputs.length)
  else do
    let expected ← (reference.execute inputs).mapError .execution
    let actual ← (candidate.execute inputs).mapError .execution
    let names := reference.outputs.zip candidate.outputs
    return compareOutputs tol sample names expected actual

/-- Compare two graphs on given inputs. -/
def compareOn (reference candidate : Graph α) (tol : Tolerance α) (inputs : NameMap (Tensor α)) :
    Except Error (Report α) := do
  let findings ← compareRuns reference candidate tol 0 inputs
  return ⟨1, reference.outputs.length, findings⟩

/-- Compare two graphs on `count` samples drawn one after another, numbered from `first`. -/
def compareSamples (reference candidate : Graph α) (tol : Tolerance α) :
    (count first : Nat) → KeyStream → Except Error (List (Finding α))
  | 0, _, _ => .ok []
  | count + 1, first, s => do
    let (inputs, s) := sampleInputs reference.inputs s
    let found ← compareRuns reference candidate tol first inputs
    let more ← compareSamples reference candidate tol count (first + 1) s
    return found ++ more

/-- Compare two graphs on random inputs of the reference graph. -/
def check (reference candidate : Graph α) (settings : Settings α) : Except Error (Report α) := do
  let samples := max 1 settings.samples
  let findings ← compareSamples reference candidate settings.tolerance samples 0
    (KeyStream.ofSeed settings.seed)
  return ⟨samples, reference.outputs.length, findings⟩

end ConvFlow.Comparison
