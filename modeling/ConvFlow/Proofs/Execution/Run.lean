/-
# Runs of a graph

Running the nodes of a graph fills a table of tensors, in the same way as shape inference fills
a table of shapes.  `runOp_relu`, `runOp_elementwise` and `runOp_conv` state the equation of each
kind of node.

The table that a run starts from depends on the constants, but whether there is one does not
(`initialContext_cases`): either every declared input is supplied, or the run fails with an error
that no constant can change.  Delivering the outputs looks at nothing but the entries of the
outputs (`deliver_congr`, `deliver_agree`).
-/
import ConvFlow.Execution
import ConvFlow.Proofs.Graph.Shapes
import ConvFlow.Proofs.Tensor

namespace ConvFlow

open Outcome

namespace Execution

variable {α : Type}

section Nodes

variable [Element α] {ctx start : Context α} {n : Node} {t : Tensor α}

/-! ## The equations of the nodes -/

omit [Element α] in
lemma readOperand_eq_ok_iff {i : Nat} :
    readOperand ctx n i = .ok t ↔ ctx[n.operand i]? = some t := by
  unfold readOperand
  split <;> simp_all

/-- What an element-wise node applies to two elements. -/
def combine : Op → α → α → α
  | .mul => (· * ·)
  | _ => (· + ·)

lemma runOp_relu (hop : n.op = .relu) : runOp ctx n = .ok t ↔
    ∃ x, ctx[n.operand 0]? = some x ∧ x.map Element.positivePart = t := by
  simp only [runOp, hop, map_eq_ok_iff, readOperand_eq_ok_iff]

lemma runElementwise_eq_ok_iff {op : α → α → α} : runElementwise op ctx n = .ok t ↔
    ∃ a b, ctx[n.operand 0]? = some a ∧ ctx[n.operand 1]? = some b ∧
      Tensor.zipBroadcast op a b = some t := by
  simp only [runElementwise, bind_eq_ok_iff, readOperand_eq_ok_iff]
  refine exists_congr fun a => ⟨?_, ?_⟩
  · rintro ⟨ha, b, hb, ht⟩
    refine ⟨b, ha, hb, ?_⟩
    split at ht <;> simp_all
  · rintro ⟨b, ha, hb, ht⟩
    exact ⟨ha, b, hb, by simp [ht]⟩

lemma runOp_elementwise (hop : n.IsElementwise) : runOp ctx n = .ok t ↔
    ∃ a b, ctx[n.operand 0]? = some a ∧ ctx[n.operand 1]? = some b ∧
      Tensor.zipBroadcast (combine n.op) a b = some t := by
  rcases hop with hop | hop
  · rw [runOp, hop]
    exact runElementwise_eq_ok_iff
  · rw [runOp, hop]
    exact runElementwise_eq_ok_iff

omit [Element α] in
lemma readBias_eq_ok_iff {bias : Option (Tensor α)} : readBias ctx n = .ok bias ↔
    (2 < n.inputs.length → ∃ b, ctx[n.operand 2]? = some b ∧ bias = some b) ∧
      (n.inputs.length ≤ 2 → bias = none) := by
  unfold readBias
  split
  · rename_i hlen
    simp only [map_eq_ok_iff, readOperand_eq_ok_iff, hlen, forall_const, not_le.2 hlen,
      IsEmpty.forall_iff, and_true, @eq_comm _ bias]
  · rename_i hlen
    simp only [hlen, IsEmpty.forall_iff, not_lt.1 hlen, forall_const, true_and, Except.ok.injEq,
      @eq_comm _ bias]

lemma runOp_conv {attrs : Conv.Attributes} (hop : n.op = .conv attrs) : runOp ctx n = .ok t ↔
    ∃ bias x w, readBias ctx n = .ok bias ∧ ctx[n.operand 0]? = some x ∧
      ctx[n.operand 1]? = some w ∧ Conv.conv2d x w bias attrs = .ok t := by
  simp only [runOp, hop, bind_eq_ok_iff, readOperand_eq_ok_iff, mapError_eq_ok_iff]
  refine exists_congr fun bias => ⟨?_, ?_⟩
  · rintro ⟨hbias, x, hx, w, hw, ht⟩
    exact ⟨x, w, hbias, hx, hw, ht⟩
  · rintro ⟨x, w, hbias, hx, hw, ht⟩
    exact ⟨hbias, x, hx, w, hw, ht⟩

lemma runOp_readsOperands : Graph.ReadsOperands (runOp : Context α → Node → _) := by
  intro ctx ctx' n harity hread
  have hoperand (i : Nat) (hi : i < n.inputs.length) :
      readOperand ctx n i = readOperand ctx' n i := by
    rw [readOperand, readOperand, Node.operand_congr hread hi]
  rcases Graph.op_cases n with hop | hop | ⟨attrs, hop⟩
  · have hlen := harity.length_relu hop
    simp only [runOp, hop, hoperand 0 (by omega)]
  · have hlen := harity.length_elementwise hop
    rcases hop with hop | hop <;>
      simp only [runOp, runElementwise, hop, hoperand 0 (by omega), hoperand 1 (by omega)]
  · have hlen := harity.length_conv hop
    have hbias : readBias ctx n = readBias ctx' n := by
      unfold readBias
      split
      · rw [hoperand 2 (by omega)]
      · rfl
    simp only [runOp, hop, hbias, hoperand 0 (by omega), hoperand 1 (by omega)]

lemma runNode_eq_ok_iff {ctx' : Context α} :
    runNode ctx n = .ok ctx' ↔ ∃ t, runOp ctx n = .ok t ∧ ctx.insert n.result t = ctx' := by
  simp only [runNode, bind_eq_ok_iff, pure_eq_ok, Except.ok.injEq]

lemma foldlM_runNode (nodes : List Node) :
    nodes.foldlM runNode start = Graph.fill runOp start nodes := by
  have hstep (ctx : Context α) (n : Node) :
      runNode ctx n = (runOp ctx n).map (ctx.insert n.result) := by
    rw [runNode]
    cases runOp ctx n <;> rfl
  rw [Graph.fill, funext fun ctx => funext (hstep ctx)]

end Nodes

/-! ## The table before the first node -/

section Start

variable {given : NameMap (Tensor α)} {ctx : Context α} {ds : List ValueDecl}

/-- Every declared input is given a tensor of its declared shape. -/
def Supplies (given : NameMap (Tensor α)) (ds : List ValueDecl) : Prop :=
  ∀ d ∈ ds, given[d.name]?.map Tensor.shape = some d.shape

instance : Decidable (Supplies given ds) :=
  inferInstanceAs (Decidable (∀ d ∈ ds, given[d.name]?.map Tensor.shape = some d.shape))

/-- Inputs that are not supplied are reported whatever the constants are. -/
lemma supplies_or_error (given : NameMap (Tensor α)) (ds : List ValueDecl) :
    Supplies given ds ∨ ∃ e, ∀ ctx, ds.foldlM (bindInput given) ctx = .error e := by
  induction ds with
  | nil => exact Or.inl fun d hd => absurd hd List.not_mem_nil
  | cons d ds ih =>
    cases hgiven : given[d.name]? with
    | none => exact Or.inr ⟨.missingInput d.name, fun ctx => by simp [bindInput, hgiven]⟩
    | some t =>
      by_cases hshape : t.shape = d.shape
      · have hstep (ctx : Context α) : (d :: ds).foldlM (bindInput given) ctx =
            ds.foldlM (bindInput given) (ctx.insert d.name t) := by
          rw [List.foldlM_cons, bindInput]
          simp [hgiven, hshape]
        rcases ih with hrest | ⟨e, he⟩
        · exact Or.inl (List.forall_mem_cons.2 ⟨by rw [hgiven, ← hshape]; rfl, hrest⟩)
        · exact Or.inr ⟨e, fun ctx => by rw [hstep, he]⟩
      · exact Or.inr ⟨.inputShape d.name d.shape t.shape, fun ctx => by
          simp [bindInput, hgiven, hshape]⟩

lemma foldlM_bindInput (h : Supplies given ds) (ctx : Context α) :
    ∃ ctx', ds.foldlM (bindInput given) ctx = .ok ctx' ∧
      ∀ v, ctx'[v]? = if ds.any (·.name == v) then given[v]? else ctx[v]? := by
  induction ds generalizing ctx with
  | nil => exact ⟨ctx, rfl, fun v => rfl⟩
  | cons d ds ih =>
    obtain ⟨hd, hrest⟩ := List.forall_mem_cons.1 h
    obtain ⟨t, hgiven, hshape⟩ := Option.map_eq_some_iff.1 hd
    obtain ⟨ctx', hfold, hentry⟩ := ih hrest (ctx.insert d.name t)
    refine ⟨ctx', ?_, fun v => ?_⟩
    · rw [List.foldlM_cons, bindInput]
      simp [hgiven, hshape, hfold]
    -- A later declaration of the same name stores the same given tensor once more.
    · rw [hentry, NameMap.getElem?_insert, List.any_cons]
      by_cases hv : d.name = v
      · simp [← hv, hgiven]
      · simp [hv]

variable {g h : Graph α}

/-- The table holds what is given under the names of the inputs, and otherwise the constants. -/
def IsStart (g : Graph α) (given : NameMap (Tensor α)) (start : Context α) : Prop :=
  ∀ v, start[v]? = if g.isInput v then given[v]? else g.initializers[v]?

lemma initialContext_of_supplies (h : Supplies given g.inputs) :
    ∃ start, initialContext g given = .ok start ∧ IsStart g given start :=
  foldlM_bindInput h g.initializers

/-- There is a table to start from only if all inputs are supplied. -/
lemma supplies_of_initialContext {start : Context α} (hstart : initialContext g given = .ok start) :
    Supplies given g.inputs ∧ IsStart g given start := by
  rcases supplies_or_error given g.inputs with hgiven | ⟨e, he⟩
  · obtain ⟨start', hstart', hentries⟩ := initialContext_of_supplies hgiven
    obtain rfl := Except.ok.inj (hstart'.symm.trans hstart)
    exact ⟨hgiven, hentries⟩
  · rw [initialContext, he g.initializers] at hstart
    simp at hstart

/-- Either all inputs are supplied, or every graph with these inputs fails in the same way. -/
lemma initialContext_cases (hinputs : h.inputs = g.inputs) (given : NameMap (Tensor α)) :
    Supplies given g.inputs ∨
      ∃ e, initialContext g given = .error e ∧ initialContext h given = .error e := by
  rcases supplies_or_error given g.inputs with hsupplies | ⟨e, he⟩
  · exact Or.inl hsupplies
  · refine Or.inr ⟨e, he g.initializers, ?_⟩
    rw [initialContext, hinputs]
    exact he h.initializers

end Start

/-! ## Delivering the outputs -/

section Deliver

variable {vs : List String} {ctx ctx' : Context α} {m m' : NameMap (Tensor α)}

lemma getElem?_erase (ctx : Context α) (k v : String) :
    (ctx.erase k)[v]? = if k = v then none else ctx[v]? := by
  simp [Std.ExtTreeMap.getElem?_erase]

lemma deliver_cons_eq_ok_iff {v : String} : deliver (v :: vs) ctx = .ok m ↔
    ∃ t rest, ctx[v]? = some t ∧ deliver vs (ctx.erase v) = .ok rest ∧ rest.insert v t = m := by
  rw [deliver]
  split
  · simp_all
  · rename_i t ht
    simp only [map_eq_ok_iff, ht, Option.some.injEq, exists_and_left, exists_eq_left']

/-- An output is delivered as it stands in the table. -/
lemma getElem?_deliver (h : deliver vs ctx = .ok m) {v : String} (hv : v ∈ vs) :
    ∃ t, ctx[v]? = some t ∧ m[v]? = some t := by
  induction vs generalizing ctx m with
  | nil => simp at hv
  | cons w vs ih =>
    obtain ⟨t, rest, ht, hrest, rfl⟩ := deliver_cons_eq_ok_iff.1 h
    by_cases hw : w = v
    · subst hw
      exact ⟨t, ht, NameMap.getElem?_insert_same _ _ _⟩
    · obtain ⟨u, hu, hm⟩ := ih hrest ((List.mem_cons.1 hv).resolve_left (Ne.symm hw))
      rw [getElem?_erase, if_neg hw] at hu
      exact ⟨u, hu, by rw [NameMap.getElem?_insert_of_ne hw, hm]⟩

lemma deliver_congr (h : ∀ v ∈ vs, ctx[v]? = ctx'[v]?) : deliver vs ctx = deliver vs ctx' := by
  induction vs generalizing ctx ctx' with
  | nil => rfl
  | cons w vs ih =>
    have herase : deliver vs (ctx.erase w) = deliver vs (ctx'.erase w) := by
      refine ih fun v hv => ?_
      rw [getElem?_erase, getElem?_erase, h v (List.mem_cons_of_mem _ hv)]
    rw [deliver, deliver, ← h w List.mem_cons_self, herase]

/-- Which outputs are delivered, and in which order one is found missing, depends only on which
of them the table holds. -/
lemma deliver_error_congr (h : ∀ v ∈ vs, ctx[v]?.isSome = ctx'[v]?.isSome) {e : Error}
    (he : deliver vs ctx = .error e) : deliver vs ctx' = .error e := by
  induction vs generalizing ctx ctx' e with
  | nil => simp [deliver] at he
  | cons w vs ih =>
    have hw := h w List.mem_cons_self
    rw [deliver] at he ⊢
    cases ht : ctx[w]? with
    | none =>
      rw [ht, Option.isSome_none, eq_comm, Option.isSome_eq_false_iff, Option.isNone_iff_eq_none]
        at hw
      simpa [ht, hw] using he
    | some t =>
      rw [ht, Option.isSome_some, eq_comm, Option.isSome_iff_exists] at hw
      obtain ⟨t', ht'⟩ := hw
      simp only [ht, ht'] at he ⊢
      cases hrest : deliver vs (ctx.erase w) with
      | ok m => simp [hrest] at he
      | error e' =>
        -- Both tables lose the same entry, and still hold the same of the other outputs.
        have herase : deliver vs (ctx'.erase w) = .error e' := by
          refine ih (fun v hv => ?_) hrest
          rw [getElem?_erase, getElem?_erase]
          split
          · rfl
          · exact h v (List.mem_cons_of_mem _ hv)
        simpa [hrest, herase] using he

end Deliver

end Execution

namespace Graph

open Execution

/-- No name is both an input and a constant. -/
def SourcesApart {α : Type} (g : Graph α) : Prop :=
  ∀ d ∈ g.inputs, g.isInitializer d.name = false

instance {α : Type} (g : Graph α) : Decidable g.SourcesApart :=
  inferInstanceAs (Decidable (∀ d ∈ g.inputs, g.isInitializer d.name = false))

variable {α : Type} {g : Graph α} {given : NameMap (Tensor α)}

lemma SourcesApart.initializer_eq_none (h : g.SourcesApart) {v : String}
    (hv : g.isInput v = true) : g.initializers[v]? = none := by
  obtain ⟨d, hd, hname⟩ := List.any_eq_true.1 hv
  obtain rfl : d.name = v := by simpa using hname
  exact isInitializer_eq_false_iff.1 (h d hd)

variable [Element α]

lemma execute_of_start_error {e : Execution.Error} (h : initialContext g given = .error e) :
    g.execute given = .error e := by
  rw [execute, h]
  rfl

/-- An execution succeeds if there is a table to start from, all nodes have a result and all
outputs can be delivered. -/
lemma execute_eq_ok_iff {m : NameMap (Tensor α)} : g.execute given = .ok m ↔
    ∃ start final, initialContext g given = .ok start ∧ fill runOp start g.nodes = .ok final ∧
      deliver g.outputs final = .ok m := by
  simp only [execute, bind_eq_ok_iff, foldlM_runNode, exists_and_left]

/-- What a graph delivers, once its table is filled. -/
lemma execute_of_fill {start final : Context α} (hstart : initialContext g given = .ok start)
    (hfinal : fill runOp start g.nodes = .ok final) :
    g.execute given = deliver g.outputs final := by
  rw [execute, hstart, ok_bind, foldlM_runNode, hfinal, ok_bind]

end Graph

end ConvFlow
