/-
# What the validation of a graph establishes

`Graph.WellFormed` says which graphs can be executed, without mentioning a check: nodes are
ordered, every node fits its arity, the constants of every convolution fit its attributes, and
every output is a source or a result.  The main statement, `validate_eq_ok_iff`, says that
`Graph.validate` accepts exactly these graphs.
-/
import ConvFlow.Proofs.Conv.Extent
import ConvFlow.Proofs.Graph.Dataflow

namespace ConvFlow

open Outcome

namespace Graph

variable {α : Type} {g : Graph α}

/-- The weights of a convolution, and its bias if it has one, are constants that fit. -/
structure FitsConv (g : Graph α) (n : Node) (attrs : Conv.Attributes) : Prop where
  steps : attrs.PositiveSteps
  constants : ∃ weights outChannels perGroup, g.initializers[n.operand 1]? = some weights ∧
    attrs.FitsWeights weights.shape outChannels perGroup ∧
    (2 < n.inputs.length →
      ∃ bias, g.initializers[n.operand 2]? = some bias ∧ bias.shape = [outChannels])

/-- What every graph has to satisfy before it is executed or changed. -/
structure WellFormed (g : Graph α) : Prop where
  ordered : Ordered {v | v ∈ g.sources} g.nodes
  arity : ∀ n ∈ g.nodes, n.FitsArity
  conv : ∀ n ∈ g.nodes, ∀ attrs, n.op = .conv attrs → g.FitsConv n attrs
  outputs : ∀ v ∈ g.outputs, v ∈ g.sources ∨ v ∈ written g.nodes

/-! ## Sources -/

lemma mem_sources_iff {v : String} : v ∈ g.sources ↔ g.isInput v = true ∨ v ∈ g.initializers := by
  simp [sources, isInput, List.any_eq_true]

/-- A constant that is stored adds its name to the sources. -/
lemma mem_sources_insert {name v : String} {t : Tensor α} :
    v ∈ ({ g with initializers := g.initializers.insert name t } : Graph α).sources ↔
      v = name ∨ v ∈ g.sources := by
  have hinput : ({ g with initializers := g.initializers.insert name t } : Graph α).isInput v =
    g.isInput v := rfl
  have hconst : v ∈ g.initializers.insert name t ↔ name = v ∨ v ∈ g.initializers := by simp
  rw [mem_sources_iff, mem_sources_iff, hinput, hconst]
  tauto

lemma isInitializer_iff {v : String} : g.isInitializer v = true ↔ v ∈ g.initializers := by
  simp [isInitializer]

lemma isInitializer_iff_exists {v : String} :
    g.isInitializer v = true ↔ ∃ t, g.initializers[v]? = some t := by
  rw [isInitializer, Std.ExtTreeMap.contains_eq_isSome_getElem?, Option.isSome_iff_exists]

lemma isInitializer_eq_false_iff {v : String} :
    g.isInitializer v = false ↔ g.initializers[v]? = none := by
  rw [isInitializer, Std.ExtTreeMap.contains_eq_isSome_getElem?, Option.isSome_eq_false_iff,
    Option.isNone_iff_eq_none]

lemma mem_sources_of_getElem? {v : String} {t : Tensor α} (h : g.initializers[v]? = some t) :
    v ∈ g.sources :=
  mem_sources_iff.2 (Or.inr (isInitializer_iff.1 (isInitializer_iff_exists.2 ⟨t, h⟩)))

namespace WellFormed

lemma source_notMem_written (h : g.WellFormed) {v : String} (hv : v ∈ g.sources) :
    v ∉ written g.nodes :=
  h.ordered.notMem_written hv

/-- No node overwrites a constant. -/
lemma initializer_notMem_written (h : g.WellFormed) {v : String} {t : Tensor α}
    (hv : g.initializers[v]? = some t) : v ∉ written g.nodes :=
  h.source_notMem_written (mem_sources_of_getElem? hv)

lemma isInitializer_of_written (h : g.WellFormed) {v : String} (hv : v ∈ written g.nodes) :
    g.isInitializer v = false := by
  by_contra hinit
  obtain ⟨t, ht⟩ := isInitializer_iff_exists.1 (Bool.not_eq_false _ ▸ hinit)
  exact h.initializer_notMem_written ht hv

/-- Recorded shapes play no role for well-formedness. -/
lemma withShapes (h : g.WellFormed) (shapes : NameMap Shape) :
    { g with valueShapes := shapes }.WellFormed :=
  ⟨h.ordered, h.arity, fun n hn attrs hop => ⟨(h.conv n hn attrs hop).steps,
    (h.conv n hn attrs hop).constants⟩, h.outputs⟩

end WellFormed

/-! ## The checks, one by one -/

lemma checkArity_eq_ok_iff {n : Node} : checkArity n = .ok () ↔ n.FitsArity := by
  have hres : n.outputs.length = 1 ↔ n.outputs = [n.result] := by
    rw [List.length_eq_one_iff]
    constructor
    · rintro ⟨v, hv⟩
      simp [Node.result, hv]
    · exact fun h => ⟨_, h⟩
  unfold checkArity
  split
  · rename_i hop
    simp only [reduceCtorEq, false_iff]
    rintro ⟨hin, -⟩
    simp [hin] at hop
  · rename_i hop
    rw [Bool.not_eq_true', Bool.not_eq_false] at hop
    split
    · rename_i hlen
      simp only [reduceCtorEq, false_iff]
      exact fun h => hlen (hres.2 h.results)
    · rename_i hlen
      exact ⟨fun _ => ⟨hop, hres.1 (not_not.1 hlen)⟩, fun _ => rfl⟩

lemma checkOperands_eq_ok_iff {available : List String} {n : Node} :
    g.checkOperands available n = .ok () ↔ ∀ v ∈ n.inputs, v ∈ available := by
  unfold checkOperands
  split
  · rename_i hnone
    simpa [List.find?_eq_none] using hnone
  · rename_i v hsome
    have hin := List.mem_of_find?_eq_some hsome
    have hout := List.find?_some hsome
    refine iff_of_false (by split <;> simp) fun h => ?_
    simp [h v hin] at hout

lemma constantOperand_eq_ok_iff {n : Node} {i : Nat} {t : Tensor α} :
    g.constantOperand n i = .ok t ↔ g.initializers[n.operand i]? = some t := by
  unfold constantOperand
  split <;> simp_all

lemma positiveSteps_iff {attrs : Conv.Attributes} :
    attrs.PositiveSteps ↔ 0 ∉ attrs.strides.toList ∧ 0 ∉ attrs.dilations.toList := by
  simp only [Plane.toList, List.mem_cons, List.not_mem_nil, or_false, not_or]
  constructor
  · rintro ⟨h1, h2, h3, h4⟩
    omega
  · rintro ⟨⟨h1, h2⟩, h3, h4⟩
    exact ⟨by omega, by omega, by omega, by omega⟩

lemma checkSteps_eq_ok_iff {n : Node} {attrs : Conv.Attributes} :
    checkSteps n attrs = .ok () ↔ attrs.PositiveSteps := by
  rw [positiveSteps_iff, checkSteps]
  split
  · simp_all
  · split <;> simp_all

lemma weightsFault?_eq_none_iff {weights : Shape} {attrs : Conv.Attributes} :
    weightsFault? weights attrs = none ↔
      ∃ outChannels perGroup, attrs.FitsWeights weights outChannels perGroup := by
  unfold weightsFault?
  split
  · rename_i outChannels perGroup rows cols
    split
    · rename_i hkernel
      refine iff_of_false (by simp) ?_
      rintro ⟨oc, pg, hfit⟩
      have hshape := hfit.shape
      simp only [List.cons.injEq, and_true] at hshape
      exact hkernel (by rw [hshape.2.2.1, hshape.2.2.2])
    · rename_i hkernel
      rw [not_not] at hkernel
      split
      · rename_i hgroup
        refine iff_of_false (by simp) ?_
        rintro ⟨oc, pg, hfit⟩
        have hshape := hfit.shape
        simp only [List.cons.injEq, and_true] at hshape
        rcases hgroup with hzero | hmod
        · exact absurd hfit.group_pos (by omega)
        · exact hmod (by rw [hshape.1]; exact Nat.mod_eq_zero_of_dvd hfit.group_dvd)
      · rename_i hgroup
        rw [not_or, not_not] at hgroup
        refine iff_of_true rfl ⟨outChannels, perGroup, ?_, by omega, ?_⟩
        · rw [hkernel]
        · exact Nat.dvd_of_mod_eq_zero hgroup.2
  · rename_i hrank
    refine iff_of_false (by simp) ?_
    rintro ⟨oc, pg, hfit⟩
    exact hrank _ _ _ _ hfit.shape

lemma checkConstants_eq_ok_iff {n : Node} {attrs : Conv.Attributes} :
    g.checkConstants n attrs = .ok () ↔ g.FitsConv n attrs := by
  unfold checkConstants
  rw [check_bind_eq_ok_iff, checkSteps_eq_ok_iff, bind_eq_ok_iff]
  simp only [constantOperand_eq_ok_iff]
  constructor
  · rintro ⟨hsteps, w, hw, hrest⟩
    cases hfault : weightsFault? w.shape attrs with
    | some fault => simp [hfault] at hrest
    | none =>
      obtain ⟨oc, pg, hfit⟩ := weightsFault?_eq_none_iff.1 hfault
      refine ⟨hsteps, w, oc, pg, hw, hfit, fun hlen => ?_⟩
      simp only [hfault, if_pos hlen, bind_eq_ok_iff, constantOperand_eq_ok_iff] at hrest
      obtain ⟨b, hb, hshape⟩ := hrest
      refine ⟨b, hb, ?_⟩
      by_contra hne
      simp [hfit.shape, hne] at hshape
  · rintro ⟨hsteps, w, oc, pg, hw, hfit, hbias⟩
    refine ⟨hsteps, w, hw, ?_⟩
    simp only [weightsFault?_eq_none_iff.2 ⟨oc, pg, hfit⟩]
    split
    · rename_i hlen
      obtain ⟨b, hb, hshape⟩ := hbias hlen
      rw [constantOperand_eq_ok_iff.2 hb]
      simp [hfit.shape, hshape]
    · rfl

/-- What the check of a node establishes. -/
structure Admits (g : Graph α) (available : List String) (n : Node) : Prop where
  reads : ∀ v ∈ n.inputs, v ∈ available
  arity : n.FitsArity
  conv : ∀ attrs, n.op = .conv attrs → g.FitsConv n attrs

lemma checkNode_eq_ok_iff {available : List String} {n : Node} :
    g.checkNode available n = .ok () ↔ g.Admits available n := by
  rw [checkNode, check_bind_eq_ok_iff, check_bind_eq_ok_iff, checkOperands_eq_ok_iff,
    checkArity_eq_ok_iff]
  cases hop : n.op with
  | conv attrs =>
    rw [checkConstants_eq_ok_iff]
    constructor
    · rintro ⟨hreads, harity, hconv⟩
      refine ⟨hreads, harity, fun attrs' h => ?_⟩
      obtain rfl : attrs = attrs' := by simpa [hop] using h
      exact hconv
    · exact fun h => ⟨h.reads, h.arity, h.conv attrs hop⟩
  | _ =>
    exact ⟨fun h => ⟨h.1, h.2.1, fun _ heq => by simp [hop] at heq⟩,
      fun h => ⟨h.reads, h.arity, rfl⟩⟩

/-! ## The whole validation -/

lemma firstClash_cons_eq_none_iff {taken : List String} {v : String} {vs : List String} :
    firstClash taken (v :: vs) = none ↔ v ∉ taken ∧ firstClash (v :: taken) vs = none := by
  rw [firstClash]
  split <;> simp_all

/-- Names do not clash if none of them is taken and each occurs once. -/
lemma firstClash_eq_none_iff {taken vs : List String} :
    firstClash taken vs = none ↔ vs.Nodup ∧ ∀ v ∈ vs, v ∉ taken := by
  induction vs generalizing taken with
  | nil => simp [firstClash]
  | cons w vs ih =>
    rw [firstClash_cons_eq_none_iff, ih, List.nodup_cons, List.forall_mem_cons]
    simp only [List.mem_cons, not_or, forall_and]
    constructor
    · rintro ⟨hw, hnodup, hne, hvs⟩
      exact ⟨⟨fun hmem => hne w hmem rfl, hnodup⟩, hw, hvs⟩
    · rintro ⟨⟨hmem, hnodup⟩, hw, hvs⟩
      exact ⟨hw, hnodup, fun v hv heq => hmem (heq ▸ hv), hvs⟩

lemma checkNodes_cons_eq_ok_iff {available after : List String} {n : Node} {rest : List Node} :
    g.checkNodes available (n :: rest) = .ok after ↔
      g.Admits available n ∧ g.checkNodes (n.outputs ++ available) rest = .ok after := by
  rw [checkNodes, check_bind_eq_ok_iff, checkNode_eq_ok_iff]

/-- The values available after the nodes are those available before and the results. -/
lemma mem_of_checkNodes {available after : List String} {nodes : List Node}
    (h : g.checkNodes available nodes = .ok after) {v : String} :
    v ∈ after ↔ v ∈ available ∨ v ∈ written nodes := by
  induction nodes generalizing available with
  | nil =>
    obtain rfl : available = after := by simpa [checkNodes] using h
    simp
  | cons n rest ih =>
    obtain ⟨hn, hrest⟩ := checkNodes_cons_eq_ok_iff.1 h
    rw [ih hrest, hn.arity.results]
    simp only [List.cons_append, List.nil_append, List.mem_cons, written_cons,
      Set.mem_insert_iff]
    tauto

/-- The two passes of the validation over the nodes, one over the names that are written and one
over the names that are read, together establish that nodes are ordered. -/
lemma checks_iff_ordered {nodes : List Node} {available : List String} :
    (firstClash available (nodes.flatMap (·.outputs)) = none ∧
      ∃ after, g.checkNodes available nodes = .ok after) ↔
    Ordered {v | v ∈ available} nodes ∧ (∀ n ∈ nodes, n.FitsArity) ∧
      ∀ n ∈ nodes, ∀ attrs, n.op = .conv attrs → g.FitsConv n attrs := by
  induction nodes generalizing available with
  | nil => simp [firstClash, checkNodes, Ordered]
  | cons n rest ih =>
    -- A node has one result, so both passes go on with the same longer list of names.
    have hset : {v | v ∈ n.result :: available} = insert n.result {v | v ∈ available} := by
      ext v
      simp
    constructor
    · rintro ⟨hclash, after, hafter⟩
      obtain ⟨hn, hrest⟩ := checkNodes_cons_eq_ok_iff.1 hafter
      rw [List.flatMap_cons, hn.arity.results, List.singleton_append,
        firstClash_cons_eq_none_iff] at hclash
      rw [hn.arity.results, List.singleton_append] at hrest
      obtain ⟨hord, harity, hconv⟩ := ih.1 ⟨hclash.2, after, hrest⟩
      rw [hset] at hord
      exact ⟨⟨hn.reads, hclash.1, hord⟩, List.forall_mem_cons.2 ⟨hn.arity, harity⟩,
        List.forall_mem_cons.2 ⟨hn.conv, hconv⟩⟩
    · rintro ⟨⟨hreads, hnew, hord⟩, harity, hconv⟩
      rw [List.forall_mem_cons] at harity hconv
      rw [← hset] at hord
      obtain ⟨hclash, after, hafter⟩ := ih.2 ⟨hord, harity.2, hconv.2⟩
      refine ⟨?_, after, checkNodes_cons_eq_ok_iff.2 ⟨⟨hreads, harity.1, hconv.1⟩, ?_⟩⟩
      · rw [List.flatMap_cons, harity.1.results, List.singleton_append,
          firstClash_cons_eq_none_iff]
        exact ⟨hnew, hclash⟩
      · rw [harity.1.results, List.singleton_append]
        exact hafter

lemma checkProducers_eq_ok_iff :
    g.checkProducers = .ok () ↔ firstClash g.sources g.results = none := by
  rw [checkProducers]
  split <;> simp_all

/-- **Validation accepts exactly the well-formed graphs.** -/
theorem validate_eq_ok_iff : g.validate = .ok () ↔ g.WellFormed := by
  rw [validate, check_bind_eq_ok_iff, checkProducers_eq_ok_iff, bind_eq_ok_iff]
  constructor
  · rintro ⟨hclash, after, hafter, hout⟩
    obtain ⟨hord, harity, hconv⟩ := checks_iff_ordered.1 ⟨hclash, after, hafter⟩
    refine ⟨hord, harity, hconv, fun v hv => (mem_of_checkNodes hafter).1 ?_⟩
    split at hout
    · simp at hout
    · rename_i hnone
      simpa using List.find?_eq_none.1 hnone v hv
  · rintro ⟨hord, harity, hconv, hout⟩
    obtain ⟨hclash, after, hafter⟩ := checks_iff_ordered.2 ⟨hord, harity, hconv⟩
    refine ⟨hclash, after, hafter, ?_⟩
    split
    · rename_i v hsome
      have hmissing := List.find?_some hsome
      have havailable := (mem_of_checkNodes hafter).2 (hout v (List.mem_of_find?_eq_some hsome))
      simp [havailable] at hmissing
    · rfl

end Graph

end ConvFlow
