/-
# How far a supervised run can drift

A comparison lets pass what differs by no more than its tolerance, and a run compares each graph
only with the one before it.  Over the rationals, and with an absolute tolerance alone, the
differences of all accepted transformations together still bound how far the outputs of the last
graph are from those of the first.

The invariant is `Trail.drift`: after `k` accepted transformations the outputs differ by at most
`k` times the tolerance, on the assignments of inputs drawn at the start.  Each comparison draws
these same assignments again, because no rule changes the declarations of the inputs.
-/
import ConvFlow.Proofs.Comparison.Closeness
import ConvFlow.Proofs.Execution.Safety
import ConvFlow.Proofs.Rules.Supervised

namespace ConvFlow.Supervised

open Comparison ConvFlow.Outcome

variable {σ : Type} {strictness : Comparison.Settings Rat} {rules : List (Rule σ Rat)}
  {g h k : Graph Rat} {r : Rule σ Rat} {s : σ} {names : List String} {result : Result Rat}

/-! ## Trails -/

lemma Accepted.inputs (haccepted : Accepted strictness r g h) (hr : r.KeepsInputs) :
    h.inputs = g.inputs := by
  obtain ⟨s, hdone⟩ := haccepted.transformed
  exact Rule.inputs_of_transform hr hdone

/-- An accepted transformation moves the outputs by no more than the tolerance. -/
lemma Accepted.within (haccepted : Accepted strictness r g h)
    (hrtol : strictness.tolerance.rtol = 0) {given : NameMap (Tensor Rat)}
    (hgiven : given ∈ strictness.assignments g.inputs) :
    AlikeOn (Tensor.Within strictness.tolerance.atol) given g h :=
  (haccepted.alike given hgiven).imp fun _ _ => Tensor.within_of_compare hrtol

/-- Along a trail the differences of the single transformations add up. -/
lemma Trail.drift (htrail : Trail strictness rules names g k)
    (hrules : ∀ r ∈ rules, r.KeepsInputs) (hrtol : strictness.tolerance.rtol = 0)
    (hchanged : names ≠ []) : ∀ given ∈ strictness.assignments g.inputs,
      AlikeOn (Tensor.Within (names.length * strictness.tolerance.atol)) given g k := by
  induction htrail with
  | nil => exact absurd rfl hchanged
  | @cons r names g h k hr hfirst hrest ih =>
    intro given hgiven
    have hstep := hfirst.within hrtol hgiven
    by_cases hlast : names = []
    · subst hlast
      cases hrest
      have hone : (([r.name] : List String).length : Rat) * strictness.tolerance.atol =
          strictness.tolerance.atol := by simp
      rw [hone]
      exact hstep
    · -- The next comparison draws for the inputs of `h`, which are those of `g`.
      have hinputs : h.inputs = g.inputs := hfirst.inputs (hrules r hr)
      have hlater := ih hlast given (hinputs ▸ hgiven)
      have hsum : ((r.name :: names).length : Rat) * strictness.tolerance.atol =
          strictness.tolerance.atol + names.length * strictness.tolerance.atol := by
        rw [List.length_cons, Nat.cast_add_one, add_mul, one_mul, add_comm]
      rw [hsum]
      exact hstep.trans hlater fun _ _ _ => Tensor.Within.trans

/-! ## Runs -/

/-- **The drift of a supervised run is bounded, whatever its rules do.**  If `k` changes have been
accepted, then on every assignment of inputs that is drawn both graphs run, they deliver the same
number of outputs, and the outputs at each position have the same shape and differ by at most `k`
times the absolute tolerance.  The graph of the result is well formed, and inference finds the
shapes that it records. -/
theorem run_drift (hrules : ∀ r ∈ rules, r.KeepsInputs)
    (hrtol : strictness.tolerance.rtol = 0)
    (hrun : (run strictness rules s g).1 = .ok result) (hchanged : 1 ≤ result.applied.length) :
    (strictness.assignments g.inputs : List (NameMap (Tensor Rat))).length =
        max 1 strictness.samples ∧
      g.outputs.length = result.graph.outputs.length ∧
      (∀ given ∈ strictness.assignments g.inputs, AlikeOn
        (Tensor.Within (result.applied.length * strictness.tolerance.atol))
        given g result.graph) ∧
      result.graph.validate = .ok () ∧ result.graph.inferShapes = .ok result.graph := by
  have htrail := trail_of_run hrun
  have hnames : result.applied ≠ [] := List.ne_nil_of_length_pos hchanged
  have hdrift := htrail.drift hrules hrtol hnames
  have hchecked := htrail.isChecked hnames
  obtain ⟨given, hgiven⟩ := exists_assignment strictness g.inputs
  exact ⟨length_assignments strictness g.inputs, (hdrift given hgiven).length_outputs, hdrift,
    Graph.validate_eq_ok_iff.2 hchecked.wellFormed, hchecked.inferShapes⟩

/-- A rule that changes what a graph computes: as long as its state counts down, it shifts a
constant a little at every second call. -/
def drip : Rule Nat Rat where
  name := "drip"
  attempt
    | 0, _ => (.ok none, 0)
    | n + 1, g => (.ok (if n % 2 = 0 then none else g.initializers["offset"]?.map fun t =>
        { g with initializers := g.initializers.insert "offset" (t.map (· + 1 / 100)) }), n)

lemma drip_keepsInputs : drip.KeepsInputs := by
  intro n g h hchange
  cases n with
  | zero => simp [drip] at hchange
  | succ n =>
    simp only [drip, Except.ok.injEq] at hchange
    split at hchange
    · simp at hchange
    · obtain ⟨t, -, rfl⟩ := Option.map_eq_some_iff.1 hchange
      rfl

/-- Settings under which a single shift is accepted. -/
def lenient : Comparison.Settings Rat := ⟨1, 0, ⟨0, 1 / 20⟩⟩

lemma smallGraph_drip : ∃ result,
    (run lenient [drip] 4 Execution.smallGraph).1 = .ok result ∧
      result.applied = ["drip", "drip"] := by
  have happlied : (run lenient [drip] 4 Execution.smallGraph).1.toOption.map (·.applied) =
      some ["drip", "drip"] := by decide +kernel
  obtain ⟨result, hresult, hnames⟩ := Option.map_eq_some_iff.1 happlied
  exact ⟨result, toOption_eq_some_iff.1 hresult, hnames⟩

/-- Two shifts of the small graph are accepted, and its outputs have moved by at most twice the
tolerance. -/
theorem smallGraph_dripped : ∃ result,
    (run lenient [drip] 4 Execution.smallGraph).1 = .ok result ∧
      result.applied = ["drip", "drip"] ∧
      (lenient.assignments Execution.smallGraph.inputs).length = 1 ∧
      Execution.smallGraph.outputs.length = result.graph.outputs.length ∧
      (∀ given ∈ lenient.assignments Execution.smallGraph.inputs, AlikeOn
        (Tensor.Within (((2 : Nat) : Rat) * (1 / 20))) given Execution.smallGraph result.graph) ∧
      result.graph.validate = .ok () ∧ result.graph.inferShapes = .ok result.graph := by
  obtain ⟨result, hrun, happlied⟩ := smallGraph_drip
  have hrules : ∀ r ∈ [drip], r.KeepsInputs := by
    intro r hr
    obtain rfl := List.mem_singleton.1 hr
    exact drip_keepsInputs
  have htwo : result.applied.length = 2 := by rw [happlied]; rfl
  have hdrift := run_drift hrules rfl hrun (by omega)
  rw [htwo] at hdrift
  exact ⟨result, hrun, happlied, hdrift⟩

end ConvFlow.Supervised
