/-
# Exact supervision accepts both rules

The two rules keep what a graph computes, so over the rationals a comparison of the graphs before
and after them finds nothing, however strict it is.  On a graph that runs at all, supervision
therefore never stands in the way: applying a rule comes to what its transformation comes to
(`apply_eq_transform`).
-/
import ConvFlow.Proofs.Comparison.Closeness
import ConvFlow.Proofs.Rules.Equivalence
import ConvFlow.Proofs.Rules.Supervised
import ConvFlow.Proofs.Rules.Termination

namespace ConvFlow.Supervised

open Comparison Execution ConvFlow.Outcome

variable {σ : Type} {strictness : Comparison.Settings Rat} {r : Rule σ Rat} {s : σ}
  {g h k : Graph Rat}

/-- A checked graph that computes all of its outputs, and runs on every assignment of inputs that
a comparison draws for it. -/
structure Comparable (strictness : Comparison.Settings Rat) (g : Graph Rat) : Prop where
  checked : g.IsChecked
  apart : g.SourcesApart
  computed : ∀ v ∈ g.outputs, g.isInitializer v = false
  runs : ∀ given ∈ strictness.assignments g.inputs, ∃ m, g.execute given = .ok m

namespace Comparable

lemma sameOn (hg : Comparable strictness g) (hreach : Relation.ReflTransGen Graph.Advances g k)
    (given : NameMap (Tensor Rat)) : SameOn g.outputs (g.execute given) (k.execute given) := by
  have hcomputed : g.computedOutputs = g.outputs :=
    List.filter_eq_self.2 fun v hv => by simp [hg.computed v hv]
  rw [← hcomputed]
  exact Graph.sameOn_of_reach hreach hg.checked hg.apart given

lemma advances (hg : Comparable strictness g) (hstep : g.Advances k) : Comparable strictness k := by
  have hkeeps := hstep.preserves hg.checked
  refine ⟨hstep.isChecked hg.checked, hstep.sourcesApart hg.apart, fun v hv => ?_,
    fun given hgiven => ?_⟩
  · rw [hkeeps.outputs] at hv
    rw [hstep.isInitializer_output hg.checked.wellFormed hv, hg.computed v hv]
  · rw [hkeeps.inputs] at hgiven
    obtain ⟨m, hm⟩ := hg.runs given hgiven
    rcases hg.sameOn (.single hstep) given with ⟨e, he, -⟩ | ⟨-, m', -, hm', -⟩
    · simp [hm] at he
    · exact ⟨m', hm'⟩

/-- A comparison with a graph that the rules make of it finds no difference. -/
lemma alike (hg : Comparable strictness g) (hrtol : 0 ≤ strictness.tolerance.rtol)
    (hatol : 0 ≤ strictness.tolerance.atol)
    (hreach : Relation.ReflTransGen Graph.Advances g k) {given : NameMap (Tensor Rat)}
    (hgiven : given ∈ strictness.assignments g.inputs) :
    AlikeOn (fun e a => compare strictness.tolerance e a = none) given g k := by
  obtain ⟨m, hm⟩ := hg.runs given hgiven
  have houtputs : k.outputs = g.outputs := (Graph.preserves_of_reach hreach hg.checked).outputs
  rcases hg.sameOn hreach given with ⟨e, he, -⟩ | ⟨m₁, m', hm₁, hm', hsame⟩
  · simp [hm] at he
  · refine ⟨m₁, m', hm₁, hm', ?_⟩
    rw [houtputs, List.forall₂_same]
    intro v hv
    obtain ⟨t, ht, ht'⟩ := hsame v hv
    exact ⟨t, t, ht, ht', compare_self hrtol hatol t⟩

lemma accept (hg : Comparable strictness g) (hrtol : 0 ≤ strictness.tolerance.rtol)
    (hatol : 0 ≤ strictness.tolerance.atol)
    (hreach : Relation.ReflTransGen Graph.Advances g k) (rule : String) :
    Supervised.accept strictness rule g k =
      .ok (if k.agrees g then .notApplicable else .applied k) := by
  unfold Supervised.accept
  split
  · rfl
  · obtain ⟨report, hreport, hnone⟩ :=
      check_iff.2 fun given hgiven => hg.alike hrtol hatol hreach hgiven
    rw [hreport, mapError_ok, ok_bind, if_pos hnone]
    rfl

end Comparable

/-- **Exact supervision accepts whatever the two rules do.**  Applying a rule to a graph that can
be compared fails only with the transformation, by its pass limit, and otherwise delivers the
transformed graph, unless this one is the graph itself. -/
theorem apply_eq_transform (hr : r = Rule.addPastConv ∨ r = Rule.mulPastConv)
    (hg : Comparable strictness g) (hrtol : 0 ≤ strictness.tolerance.rtol)
    (hatol : 0 ≤ strictness.tolerance.atol) :
    (apply strictness r s g).1 = match (r.transform s g).1 with
      | .error e => .error (.transform e)
      | .ok h => .ok (if h.agrees g then .notApplicable else .applied h) := by
  rw [apply_eq]
  cases hdone : (r.transform s g).1 with
  | error e => rfl
  | ok h => exact hg.accept hrtol hatol (Rule.reach_of_transform hr hg.checked hdone) r.name

/-- Graphs with fewer inversions are different. -/
lemma agrees_eq_false {α : Type} [BEq α] {g k : Graph α} {kind : OpKind}
    (hless : k.inversions kind < g.inversions kind) : k.agrees g = false := by
  by_contra hagrees
  simp only [Graph.agrees, Bool.not_eq_false, Bool.and_eq_true, beq_iff_eq] at hagrees
  obtain ⟨⟨⟨-, hnodes⟩, -⟩, -⟩ := hagrees
  rw [Graph.inversions_eq, Graph.inversions_eq, hnodes] at hless
  exact Nat.lt_irrefl _ hless

/-- A rule that makes a single change and then declines is applied. -/
lemma apply_of_single {kind : OpKind} (hr : r = Rule.addPastConv ∨ r = Rule.mulPastConv)
    (hg : Comparable strictness g) (hrtol : 0 ≤ strictness.tolerance.rtol)
    (hatol : 0 ≤ strictness.tolerance.atol) (hattempt : r.attempt s g = (.ok (some h), s))
    (hmoves : Graph.MovesOf kind g h) (hinfer : h.inferShapes = .ok k)
    (hdeclines : r.attempt s k = (.ok none, s)) :
    (apply strictness r s g).1 = .ok (.applied k) := by
  have hk : k.IsChecked := Graph.Advances.isChecked ⟨h, hmoves.moves, hinfer⟩ hg.checked
  have hsteps : r.Steps 1 s g s k := .step hattempt hinfer (.refl s k)
  have hdone : (r.transform s g).1 = .ok k :=
    Rule.transform_of_steps hg.checked hsteps hdeclines hk
  rw [apply_eq_transform hr hg hrtol hatol, hdone]
  simp only [agrees_eq_false (hmoves.inversions_lt hinfer), Bool.false_eq_true, if_false]

end ConvFlow.Supervised
