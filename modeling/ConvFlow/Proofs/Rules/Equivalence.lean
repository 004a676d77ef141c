/-
# Transformed graphs compute the same

In exact arithmetic both rules keep what a graph computes, for all inputs and any number of moves.
A moved multiplication leaves every result of an execution as it is (`mulPastConv_execute`).  A moved
addition may replace a constant under its own name, so if the graph delivers this constant itself,
it delivers another one afterwards; everything else stays (`addPastConv_execute`).
-/
import ConvFlow.Proofs.Rules.Preservation
import ConvFlow.Proofs.Rules.Simulation

namespace ConvFlow

open Outcome Execution

variable {α : Type}

namespace Execution

/-- Two executions fail with the same error, or both succeed with the same tensors under the given
names. -/
def SameOn (vs : List String) (r r' : Except Error (NameMap (Tensor α))) : Prop :=
  (∃ e, r = .error e ∧ r' = .error e) ∨
    ∃ m m', r = .ok m ∧ r' = .ok m' ∧ ∀ v ∈ vs, ∃ t, m[v]? = some t ∧ m'[v]? = some t

lemma SameOn.trans {vs : List String} {r r' r'' : Except Error (NameMap (Tensor α))}
    (h : SameOn vs r r') (h' : SameOn vs r' r'') : SameOn vs r r'' := by
  rcases h with ⟨e, rfl, rfl⟩ | ⟨m, m', rfl, rfl, hm⟩
  · rcases h' with ⟨e', he, rfl⟩ | ⟨_, _, he, _⟩
    · obtain rfl := Except.error.inj he
      exact Or.inl ⟨e, rfl, rfl⟩
    · simp at he
  · rcases h' with ⟨_, he, _⟩ | ⟨k, m'', hk, rfl, hm'⟩
    · simp at he
    · obtain rfl := Except.ok.inj hk
      refine Or.inr ⟨m, m'', rfl, rfl, fun v hv => ?_⟩
      obtain ⟨t, ht, ht'⟩ := hm v hv
      obtain ⟨u, hu, hu'⟩ := hm' v hv
      obtain rfl := Option.some.inj (ht'.symm.trans hu)
      exact ⟨t, ht, hu'⟩

/-- Delivering outputs from two tables that hold the same outputs, some of them with the same
tensors. -/
lemma sameOn_deliver {outputs vs : List String} {ctx ctx' : Context α}
    (hdefined : ∀ v ∈ outputs, ctx[v]?.isSome = ctx'[v]?.isSome)
    (hsame : ∀ v ∈ vs, v ∈ outputs ∧ ctx'[v]? = ctx[v]?) :
    SameOn vs (deliver outputs ctx) (deliver outputs ctx') := by
  cases hm : deliver outputs ctx with
  | error e => exact Or.inl ⟨e, rfl, deliver_error_congr hdefined hm⟩
  | ok m =>
    cases hm' : deliver outputs ctx' with
    | error e =>
      have herror := deliver_error_congr (fun v hv => (hdefined v hv).symm) hm'
      simp [hm] at herror
    | ok m' =>
      refine Or.inr ⟨m, m', rfl, rfl, fun v hv => ?_⟩
      obtain ⟨houtput, heq⟩ := hsame v hv
      obtain ⟨t, ht, hmt⟩ := getElem?_deliver hm houtput
      obtain ⟨t', ht', hmt'⟩ := getElem?_deliver hm' houtput
      obtain rfl : t' = t := Option.some.inj (by rw [← ht', heq, ht])
      exact ⟨t', hmt, hmt'⟩

end Execution

namespace Graph

/-- The outputs that are computed and not constants of the graph. -/
def computedOutputs (g : Graph α) : List String := g.outputs.filter fun v => !g.isInitializer v

lemma mem_computedOutputs_iff {g : Graph α} {v : String} :
    v ∈ g.computedOutputs ↔ v ∈ g.outputs ∧ g.isInitializer v = false := by
  simp [computedOutputs]

variable [Element α] {g h k : Graph α} {given : NameMap (Tensor α)}

/-- An execution agrees with itself: what it delivers are the outputs. -/
lemma sameOn_execute (g : Graph α) (given : NameMap (Tensor α)) :
    SameOn g.computedOutputs (g.execute given) (g.execute given) := by
  cases hstart : initialContext g given with
  | error e => exact Or.inl ⟨e, execute_of_start_error hstart, execute_of_start_error hstart⟩
  | ok start =>
    cases hfill : fill runOp start g.nodes with
    | error e =>
      have herror : g.execute given = .error e := by
        rw [execute, hstart, ok_bind, foldlM_runNode, hfill]
        rfl
      exact Or.inl ⟨e, herror, herror⟩
    | ok final =>
      rw [execute_of_fill hstart hfill]
      exact sameOn_deliver (fun _ _ => rfl) fun v hv => ⟨(mem_computedOutputs_iff.1 hv).1, rfl⟩

namespace Advances

/-- What a move and the inference after it keep of the sources. -/
lemma sourcesApart (h : g.Advances k) (hapart : g.SourcesApart) : k.SourcesApart := by
  obtain ⟨_, ⟨p, name, value, hfree, -, rfl⟩, hinfer⟩ := h
  rw [eq_of_inferShapes hinfer]
  exact Pair.sourcesApart_exchange hfree hapart

/-- No output becomes a constant, and none ceases to be one. -/
lemma isInitializer_output (h : g.Advances k) (hg : g.WellFormed) {v : String}
    (hv : v ∈ g.outputs) : k.isInitializer v = g.isInitializer v := by
  obtain ⟨_, ⟨p, name, value, hfree, -, rfl⟩, hinfer⟩ := h
  have hconst : k.isInitializer v = (p.exchange name value).isInitializer v := by
    rw [eq_of_inferShapes hinfer]
    rfl
  rw [hconst, isInitializer, isInitializer, Std.ExtTreeMap.contains_eq_isSome_getElem?,
    Std.ExtTreeMap.contains_eq_isSome_getElem?, Pair.getElem?_initializers_exchange]
  split
  · rename_i heq
    subst heq
    rcases hfree.known with hknown | ⟨hsource, hnew⟩
    · rw [isInitializer, Std.ExtTreeMap.contains_eq_isSome_getElem?] at hknown
      rw [hknown, Option.isSome_some]
    · exact absurd (hg.outputs name hv) (not_or.2 ⟨hsource, hnew⟩)
  · rfl

lemma run [Element.IsExact α] (h : g.Advances k) (hg : g.IsChecked) (hapart : g.SourcesApart)
    (hgiven : Supplies given g.inputs) :
    ∃ m m' : Context α, g.execute given = deliver g.outputs m ∧
      k.execute given = deliver g.outputs m' ∧
      (∀ v ∈ g.outputs, g.isInitializer v = false → m'[v]? = m[v]?) ∧
      ∀ v, g.isInitializer v = true →
        m[v]? = g.initializers[v]? ∧ m'[v]? = k.initializers[v]? := by
  obtain ⟨_, hmoves, hinfer⟩ := h
  rw [eq_of_inferShapes hinfer]
  exact hmoves.run hg hapart hgiven

/-- One move keeps the computed outputs of every execution. -/
lemma sameOn [Element.IsExact α] (h : g.Advances k) (hg : g.IsChecked) (hapart : g.SourcesApart)
    (given : NameMap (Tensor α)) :
    SameOn g.computedOutputs (g.execute given) (k.execute given) := by
  rcases initialContext_cases (h.preserves hg).inputs given with hgiven | ⟨e, herror, herror'⟩
  · obtain ⟨m, m', hm, hm', hsame, hconst⟩ := h.run hg hapart hgiven
    rw [hm, hm']
    refine sameOn_deliver (fun v hv => ?_) fun v hv => ?_
    -- An output that is a constant may hold another tensor afterwards, but it holds one.
    · cases hinit : g.isInitializer v with
      | false => rw [hsame v hv hinit]
      | true =>
        have hinit' : k.isInitializer v = true := by
          rw [h.isInitializer_output hg.wellFormed hv, hinit]
        rw [(hconst v hinit).1, (hconst v hinit).2,
          ← Std.ExtTreeMap.contains_eq_isSome_getElem?,
          ← Std.ExtTreeMap.contains_eq_isSome_getElem?]
        exact hinit.trans hinit'.symm
    · obtain ⟨houtput, hinit⟩ := mem_computedOutputs_iff.1 hv
      exact ⟨houtput, hsame v houtput hinit⟩
  · exact Or.inl ⟨e, execute_of_start_error herror, execute_of_start_error herror'⟩

/-- One move that keeps the constants keeps every execution. -/
lemma execute_eq [Element.IsExact α] (h : g.Advances k) (hg : g.IsChecked)
    (hapart : g.SourcesApart) (hconstants : k.initializers = g.initializers)
    (given : NameMap (Tensor α)) : k.execute given = g.execute given := by
  rcases initialContext_cases (h.preserves hg).inputs given with hgiven | ⟨e, herror, herror'⟩
  · obtain ⟨m, m', hm, hm', hsame, hconst⟩ := h.run hg hapart hgiven
    rw [hm, hm']
    refine deliver_congr fun v hv => ?_
    cases hinit : g.isInitializer v with
    | false => exact hsame v hv hinit
    | true => rw [(hconst v hinit).1, (hconst v hinit).2, hconstants]
  · rw [execute_of_start_error herror, execute_of_start_error herror']

lemma computedOutputs_eq (h : g.Advances k) (hg : g.IsChecked) :
    k.computedOutputs = g.computedOutputs := by
  rw [computedOutputs, computedOutputs, (h.preserves hg).outputs]
  exact List.filter_congr fun v hv => by rw [h.isInitializer_output hg.wellFormed hv]

end Advances

variable [Element.IsExact α]

lemma sameOn_of_reach (h : Relation.ReflTransGen Advances g k) (hg : g.IsChecked)
    (hapart : g.SourcesApart) (given : NameMap (Tensor α)) :
    SameOn g.computedOutputs (g.execute given) (k.execute given) := by
  induction h using Relation.ReflTransGen.head_induction_on with
  | refl => exact sameOn_execute k given
  | head hstep _ ih =>
    refine (hstep.sameOn hg hapart given).trans ?_
    rw [← hstep.computedOutputs_eq hg]
    exact ih (hstep.isChecked hg) (hstep.sourcesApart hapart)

lemma execute_eq_of_reach (h : Relation.ReflTransGen
    (fun g k : Graph α => g.Advances k ∧ k.initializers = g.initializers) g k)
    (hg : g.IsChecked) (hapart : g.SourcesApart) (given : NameMap (Tensor α)) :
    k.execute given = g.execute given := by
  induction h using Relation.ReflTransGen.head_induction_on with
  | refl => rfl
  | head hstep _ ih =>
    obtain ⟨hadvances, hconstants⟩ := hstep
    rw [ih (hadvances.isChecked hg) (hadvances.sourcesApart hapart),
      hadvances.execute_eq hg hapart hconstants]

end Graph

/-! ## The two rules over the rationals -/

namespace Rule

open Transform

variable {σ : Type} {g₀ g h : Graph Rat} {s : σ}

/-- **Moving multiplications past convolutions keeps every execution** as it is, with its error or
with all that it delivers. -/
theorem mulPastConv_execute (hchecked : g₀.checked = .ok g) (hapart : g.SourcesApart)
    (hdone : ((mulPastConv : Rule σ Rat).transform s g).1 = .ok h) (given : NameMap (Tensor Rat)) :
    h.execute given = g.execute given := by
  have hg := Graph.isChecked_of_checked hchecked
  rcases mulPastConv_cases hg s with hlimit | ⟨k, hk, -, hreach⟩
  · simp [hlimit] at hdone
  · obtain rfl := Except.ok.inj (hk.symm.trans hdone)
    exact Graph.execute_eq_of_reach hreach hg hapart given

/-- In the small graph the scaling moves past the second convolution. -/
lemma smallGraph_mulPastConv : ∃ g h, smallGraph.checked = .ok g ∧ g.SourcesApart ∧
    ((mulPastConv : Rule Unit Rat).transform () g).1 = .ok h ∧
    h.nodes.map (·.name) = ["shift", "first", "second", "scale", "lift", "clip"] :=
  ⟨_, _, rfl, by decide +kernel, rfl, by decide +kernel⟩

/-- Moving the scaling of the small graph leaves its execution as it is. -/
theorem smallGraph_scaling_moved : ∃ g h, smallGraph.checked = .ok g ∧
    ((mulPastConv : Rule Unit Rat).transform () g).1 = .ok h ∧
    h.nodes.map (·.name) = ["shift", "first", "second", "scale", "lift", "clip"] ∧
    h.execute smallInput = g.execute smallInput := by
  obtain ⟨g, h, hg, hapart, hdone, hnames⟩ := smallGraph_mulPastConv
  exact ⟨g, h, hg, hdone, hnames, mulPastConv_execute hg hapart hdone smallInput⟩

end Rule

end ConvFlow
