/-
# What a transformation keeps

A move reorders two nodes and renames values, but it neither adds nor removes a node, it does not
touch the constants of a convolution, and the outputs keep their shapes.  `Preserves` lists what
holds between a graph and what the rules make of it, and `transform_preserves` says that both
rules keep it, however often they apply.
-/
import ConvFlow.Proofs.Execution.Safety
import ConvFlow.Proofs.Rules.Transform

namespace ConvFlow

open Transform

namespace Graph

variable {α : Type}

/-- The convolutions in their order, each with its name, its operation and its constant
operands. -/
def convs (g : Graph α) : List (String × Op × List String) :=
  (g.nodes.filter fun n => n.op.kind = .conv).map fun n => (n.name, n.op, n.inputs.drop 1)

/-- The graph `h` has the interface, the operations, the results and the convolutions of `g`, and
its outputs have the shapes that they have in `g`. -/
structure Preserves (g h : Graph α) : Prop where
  name : h.name = g.name
  inputs : h.inputs = g.inputs
  outputs : h.outputs = g.outputs
  operations : (h.nodes.map fun n => (n.name, n.op)).Perm (g.nodes.map fun n => (n.name, n.op))
  results : ∀ v, v ∈ h.results ↔ v ∈ g.results
  convs : h.convs = g.convs
  constants : ∀ c ∈ g.convs, ∀ v ∈ c.2.2, h.initializers[v]? = g.initializers[v]?
  shapes : ∀ v ∈ g.outputs, v ∈ g.results → h.valueShapes[v]? = g.valueShapes[v]?

namespace Preserves

variable {g h k : Graph α}

lemma refl (g : Graph α) : g.Preserves g :=
  ⟨rfl, rfl, rfl, .refl _, fun _ => .rfl, rfl, fun _ _ _ _ => rfl, fun _ _ _ => rfl⟩

lemma trans (hgh : g.Preserves h) (hhk : h.Preserves k) : g.Preserves k where
  name := hhk.name.trans hgh.name
  inputs := hhk.inputs.trans hgh.inputs
  outputs := hhk.outputs.trans hgh.outputs
  operations := hhk.operations.trans hgh.operations
  results v := (hhk.results v).trans (hgh.results v)
  convs := hhk.convs.trans hgh.convs
  constants c hc v hv :=
    (hhk.constants c (hgh.convs.symm ▸ hc) v hv).trans (hgh.constants c hc v hv)
  shapes v hv hresult := (hhk.shapes v (hgh.outputs.symm ▸ hv) ((hgh.results v).2 hresult)).trans
    (hgh.shapes v hv hresult)

end Preserves

/-! ## One move -/

namespace Pair

variable {g : Graph α} {p : Pair g} {name : String} {value : Tensor α}

lemma operations_exchange (p : Pair g) (name : String) (value : Tensor α) :
    ((p.exchange name value).nodes.map fun n => (n.name, n.op)).Perm
      (g.nodes.map fun n => (n.name, n.op)) := by
  have hconv : (p.newConv.name, p.newConv.op) = (p.conv.name, p.conv.op) := rfl
  have hop : ((p.newOp name).name, (p.newOp name).op) = (p.op.name, p.op.op) := rfl
  rw [nodes_exchange, p.nodes_eq]
  simp only [List.map_append, List.map_cons, hconv, hop]
  refine List.Perm.append_left _ ?_
  -- The operation moves over the nodes in the middle, and then over the convolution.
  refine List.Perm.trans ?_ List.perm_middle
  exact List.Perm.append_left _ (.swap _ _ _)

lemma convs_exchange (p : Pair g) (name : String) (value : Tensor α) :
    (p.exchange name value).convs = g.convs := by
  have hop := p.op_kind_ne_conv
  have hnewop : (p.newOp name).op.kind ≠ .conv := hop
  have hconv := p.conv_kind
  have hnewconv : p.newConv.op.kind = .conv := hconv
  rw [convs, convs, nodes_exchange, p.nodes_eq]
  simp only [List.filter_append, List.filter_cons, hop, hnewop, hconv, hnewconv, decide_true,
    decide_false, if_true, List.map_append, List.map_cons]
  simp [newConv, p.conv_inputs]

/-- A convolution reads the same constants as before. -/
lemma constants_exchange (hfree : p.Free name value) {c : String × Op × List String}
    (hc : c ∈ g.convs) {v : String} (hv : v ∈ c.2.2) :
    (p.exchange name value).initializers[v]? = g.initializers[v]? := by
  obtain ⟨n, hn, rfl⟩ := List.mem_map.1 hc
  obtain ⟨hmem, hkind⟩ := List.mem_filter.1 hn
  refine hfree.initializers_of_read ?_ (List.mem_of_mem_drop hv)
  rw [p.nodes_eq] at hmem
  have hne : n ≠ p.op := by
    rintro rfl
    exact p.op_kind_ne_conv (by simpa using hkind)
  simp only [List.mem_append, List.mem_cons] at hmem ⊢
  tauto

end Pair

lemma mem_results_iff {g : Graph α} (hg : g.WellFormed) {v : String} :
    v ∈ g.results ↔ v ∈ written g.nodes := by
  rw [results, List.mem_flatMap]
  refine exists_congr fun n => and_congr_right fun hn => ?_
  rw [(hg.arity n hn).results, List.mem_singleton, eq_comm]

variable [Element α] {g k : Graph α}

/-- **One move and the inference after it keep everything.** -/
theorem Advances.preserves (h : g.Advances k) (hg : g.IsChecked) : g.Preserves k := by
  obtain ⟨_, ⟨p, name, value, hfree, hlegal, rfl⟩, hinfer⟩ := h
  obtain ⟨s, -, hs⟩ := Pair.inferShapes_exchange hg hfree hlegal
  obtain rfl := Except.ok.inj (hinfer.symm.trans hs)
  have hwf := Pair.wellFormed_exchange hg.wellFormed hfree
  exact {
    name := rfl
    inputs := rfl
    outputs := rfl
    operations := p.operations_exchange name value
    results := fun v => by
      have hiff := mem_results_iff hwf (v := v)
      rw [p.written_exchange, ← mem_results_iff hg.wellFormed] at hiff
      exact hiff
    convs := p.convs_exchange name value
    constants := fun c hc v hv => Pair.constants_exchange hfree hc hv
    shapes := fun v hv hresult => by
      refine Pair.getElem?_table_of_ne (fun heq => p.not_output (heq ▸ hv)) fun heq => ?_
      exact hfree.notMem_written hg.wellFormed
        (heq ▸ (mem_results_iff hg.wellFormed).1 hresult) }

/-- Moving on from a checked graph leads to checked graphs. -/
lemma Advances.isChecked (h : g.Advances k) (hg : g.IsChecked) : k.IsChecked := by
  obtain ⟨_, hmoves, hinfer⟩ := h
  obtain ⟨k', hinfer', hk, -⟩ := hmoves.inferShapes hg
  obtain rfl := Except.ok.inj (hinfer.symm.trans hinfer')
  exact hk

/-- However often a graph is moved on, everything is kept. -/
lemma preserves_of_reach (h : Relation.ReflTransGen Advances g k) (hg : g.IsChecked) :
    g.Preserves k := by
  induction h using Relation.ReflTransGen.head_induction_on with
  | refl => exact .refl k
  | head hstep _ ih => exact (hstep.preserves hg).trans (ih (hstep.isChecked hg))

end Graph

namespace Rule

variable {σ α : Type} [Element α] {g₀ g : Graph α}

/-- **Both rules keep a checked graph checked.**  A transformation fails only by giving up at its
pass limit.  The graph that it delivers is well formed, records the shapes that inference finds,
and has the interface, the operations, the results and the convolutions of the graph before. -/
theorem transform_preserves {r : Rule σ α} (hr : r = addPastConv ∨ r = mulPastConv)
    (hchecked : g₀.checked = .ok g) (s : σ) :
    (r.transform s g).1 = .error (.noFixedPoint r.name passLimit) ∨
      ∃ h, (r.transform s g).1 = .ok h ∧ h.validate = .ok () ∧ h.inferShapes = .ok h ∧
        g.Preserves h := by
  have hg := Graph.isChecked_of_checked hchecked
  have hcases : (r.transform s g).1 = .error (.noFixedPoint r.name passLimit) ∨
      ∃ h, (r.transform s g).1 = .ok h ∧ h.IsChecked ∧
        Relation.ReflTransGen Graph.Advances g h := by
    rcases hr with rfl | rfl
    · exact addPastConv_cases hg s
    · refine (mulPastConv_cases hg s).imp_right ?_
      rintro ⟨h, hdone, hh, hreach⟩
      exact ⟨h, hdone, hh, hreach.lift id fun _ _ hstep => hstep.1⟩
  rcases hcases with hlimit | ⟨h, hdone, hh, hreach⟩
  · exact Or.inl hlimit
  · exact Or.inr ⟨h, hdone, Graph.validate_eq_ok_iff.2 hh.wellFormed, hh.inferShapes,
      Graph.preserves_of_reach hreach hg⟩

/-- In the small graph the shift moves past the first convolution. -/
lemma smallGraph_addPastConv : ∃ g h, Execution.smallGraph.checked = .ok g ∧ g.SourcesApart ∧
    ((addPastConv : Rule Unit Rat).transform () g).1 = .ok h ∧
    h.nodes.map (·.name) = ["first", "shift", "scale", "second", "lift", "clip"] :=
  ⟨_, _, rfl, by decide +kernel, rfl, by decide +kernel⟩

/-- The small graph stays checked when its shift moves. -/
theorem smallGraph_preserved : ∃ g h, Execution.smallGraph.checked = .ok g ∧
    ((addPastConv : Rule Unit Rat).transform () g).1 = .ok h ∧ h.validate = .ok () ∧
      h.inferShapes = .ok h ∧ g.Preserves h := by
  obtain ⟨g, h, hg, -, hdone, -⟩ := smallGraph_addPastConv
  rcases transform_preserves (Or.inl rfl) hg () with hlimit | ⟨k, hk, hvalid, hinfer, hkeeps⟩
  · simp [hlimit] at hdone
  · exact ⟨g, k, hg, hk, hvalid, hinfer, hkeeps⟩

end Rule

end ConvFlow
