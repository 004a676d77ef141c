/-
# What shape inference records

Shape inference fills a table of shapes along the nodes, so its result is the solution of one
equation for each node (`inferShapes_eq_ok_iff`).  `resultShape_relu`, `resultShape_elementwise`
and `resultShape_conv` state these equations.

A graph `IsChecked` if it is well formed and records exactly the shapes that inference finds;
this is what `Graph.checked` establishes.
-/
import ConvFlow.Graph.Checked
import ConvFlow.Proofs.Graph.WellFormed

namespace ConvFlow

open Outcome

namespace NameMap

variable {β γ : Type}

/-- Of several entries stored under one name the last one stays. -/
lemma getElem?_foldl_insert (name : γ → String) (value : γ → β) (l : List γ) (m : NameMap β)
    (v : String) : (l.foldl (fun m c => m.insert (name c) (value c)) m)[v]? =
      ((l.reverse.find? fun c => name c == v).map value).or m[v]? := by
  induction l generalizing m with
  | nil => simp
  | cons c l ih =>
    rw [List.foldl_cons, ih, List.reverse_cons, List.find?_append, getElem?_insert]
    cases l.reverse.find? fun c => name c == v with
    | some d => simp
    | none => by_cases h : name c = v <;> simp [h]

lemma find?_toList_reverse (m : NameMap β) (v : String) :
    (m.toList.reverse.find? fun c => c.1 == v).map Prod.snd = m[v]? := by
  cases hfind : m.toList.reverse.find? fun c => c.1 == v with
  | none =>
    symm
    rw [Option.map_none, Option.eq_none_iff_forall_ne_some]
    intro b hb
    rw [List.find?_eq_none] at hfind
    have hmem := Std.ExtTreeMap.mem_toList_iff_getElem?_eq_some.2 hb
    exact hfind (v, b) (List.mem_reverse.2 hmem) (by simp)
  | some c =>
    have hmem := List.mem_reverse.1 (List.mem_of_find?_eq_some hfind)
    have hname : c.1 = v := by simpa using List.find?_some hfind
    rw [Option.map_some, ← hname]
    exact (Std.ExtTreeMap.mem_toList_iff_getElem?_eq_some.1 hmem).symm

/-- A map is made of its entries, one after another. -/
lemma foldl_insert_toList (m : NameMap β) :
    m.toList.foldl (fun m c => m.insert c.1 c.2) ∅ = m := by
  refine Std.ExtTreeMap.ext_getElem? fun v => ?_
  rw [getElem?_foldl_insert Prod.fst Prod.snd, find?_toList_reverse]
  simp

end NameMap

namespace Node

/-- The node applies an operation to corresponding elements of two operands. -/
def IsElementwise (n : Node) : Prop := n.op = .add ∨ n.op = .mul

/-- What a node reads in its operand positions is fixed by the entries under the names it
lists. -/
lemma operand_congr {β : Type} {m m' : NameMap β} {n : Node}
    (h : ∀ v ∈ n.inputs, m[v]? = m'[v]?) {i : Nat} (hi : i < n.inputs.length) :
    m[n.operand i]? = m'[n.operand i]? :=
  h _ (operand_mem hi)

namespace FitsArity

variable {n : Node}

lemma length_relu (h : n.FitsArity) (hop : n.op = .relu) : n.inputs.length = 1 := by
  have := h.operands
  simpa [hop, Op.kind, Graph.takesOperands] using this

lemma length_elementwise (h : n.FitsArity) (hop : n.IsElementwise) : n.inputs.length = 2 := by
  have := h.operands
  rcases hop with hop | hop <;> simpa [hop, Op.kind, Graph.takesOperands] using this

lemma length_conv (h : n.FitsArity) {attrs : Conv.Attributes} (hop : n.op = .conv attrs) :
    n.inputs.length = 2 ∨ n.inputs.length = 3 := by
  have := h.operands
  simpa [hop, Op.kind, Graph.takesOperands] using this

end FitsArity

end Node

namespace Graph

variable {α : Type} {g h : Graph α} {shapes m m' : NameMap Shape} {n : Node} {s : Shape}

/-! ## The constants of a convolution -/

/-- Constants fit a convolution as long as it reads the same tensors. -/
lemma FitsConv.congr {n' : Node} {attrs : Conv.Attributes}
    (hfit : g.FitsConv n attrs) (harity : n.FitsArity) (hop : n.op = .conv attrs)
    (hlen : n'.inputs.length = n.inputs.length)
    (hread : ∀ i, 1 ≤ i → i < n.inputs.length →
      h.initializers[n'.operand i]? = g.initializers[n.operand i]?) : h.FitsConv n' attrs := by
  obtain ⟨weights, outChannels, perGroup, hweights, hfits, hbias⟩ := hfit.constants
  have htwo := harity.length_conv hop
  refine ⟨hfit.steps, weights, outChannels, perGroup, ?_, hfits, fun hthree => ?_⟩
  · rw [hread 1 (by omega) (by omega), hweights]
  · obtain ⟨bias, hb, hshape⟩ := hbias (hlen ▸ hthree)
    exact ⟨bias, by rw [hread 2 (by omega) (by omega), hb], hshape⟩

/-! ## The shapes of the sources -/

/-- The shapes that the declarations alone record. -/
def declaredShapes (g : Graph α) : NameMap Shape :=
  g.inputs.foldl (fun m d => m.insert d.name d.shape) ∅

/-- A constant's own shape takes precedence over that of a declaration of the same name. -/
lemma getElem?_sourceShapes (v : String) :
    g.sourceShapes[v]? = (g.initializers[v]?.map Tensor.shape).or g.declaredShapes[v]? := by
  have h := NameMap.getElem?_foldl_insert (fun c : String × Tensor α => c.1)
    (fun c => c.2.shape) g.initializers.toList g.declaredShapes v
  rw [← NameMap.find?_toList_reverse g.initializers v, Option.map_map]
  exact h

lemma getElem?_declaredShapes (v : String) :
    g.declaredShapes[v]? =
      (g.inputs.reverse.find? fun d => d.name == v).map ValueDecl.shape := by
  have h := NameMap.getElem?_foldl_insert ValueDecl.name ValueDecl.shape g.inputs ∅ v
  rw [declaredShapes, h]
  simp

lemma lookupShape_eq_ok_iff {v : String} : lookupShape shapes v = .ok s ↔ shapes[v]? = some s := by
  unfold lookupShape
  split <;> simp_all

lemma resultShape_relu (hop : n.op = .relu) :
    resultShape shapes n = .ok s ↔ shapes[n.operand 0]? = some s := by
  simp only [resultShape, hop, lookupShape_eq_ok_iff]

lemma resultShape_elementwise (hop : n.IsElementwise) :
    resultShape shapes n = .ok s ↔ ∃ a b, shapes[n.operand 0]? = some a ∧
      shapes[n.operand 1]? = some b ∧ a.broadcast b = some s := by
  rcases hop with hop | hop
  all_goals
    simp only [resultShape, hop, bind_eq_ok_iff, lookupShape_eq_ok_iff]
    refine exists_congr fun a => ⟨?_, ?_⟩
    · rintro ⟨ha, b, hb, hs⟩
      refine ⟨b, ha, hb, ?_⟩
      split at hs <;> simp_all
    · rintro ⟨b, ha, hb, hs⟩
      exact ⟨ha, b, hb, by simp [hs]⟩

lemma resultShape_conv {attrs : Conv.Attributes} (hop : n.op = .conv attrs) :
    resultShape shapes n = .ok s ↔ ∃ x w, shapes[n.operand 0]? = some x ∧
      shapes[n.operand 1]? = some w ∧ Conv.outputShape x w attrs = .ok s := by
  simp only [resultShape, hop, bind_eq_ok_iff, lookupShape_eq_ok_iff, mapError_eq_ok_iff]
  tauto

/-- A node that fits its arity is a rectifier, an element-wise operation or a convolution. -/
lemma op_cases (n : Node) :
    n.op = .relu ∨ n.IsElementwise ∨ ∃ attrs, n.op = .conv attrs := by
  cases hop : n.op with
  | relu => exact Or.inl rfl
  | add => exact Or.inr (Or.inl (Or.inl hop))
  | mul => exact Or.inr (Or.inl (Or.inr hop))
  | conv attrs => exact Or.inr (Or.inr ⟨attrs, rfl⟩)

lemma resultShape_readsOperands : ReadsOperands resultShape := by
  intro m m' n harity hread
  have hlookup (i : Nat) (hi : i < n.inputs.length) :
      lookupShape m (n.operand i) = lookupShape m' (n.operand i) := by
    rw [lookupShape, lookupShape, Node.operand_congr hread hi]
  rcases op_cases n with hop | hop | ⟨attrs, hop⟩
  · have hlen := harity.length_relu hop
    simp only [resultShape, hop, hlookup 0 (by omega)]
  · have hlen := harity.length_elementwise hop
    rcases hop with hop | hop <;>
      simp only [resultShape, hop, hlookup 0 (by omega), hlookup 1 (by omega)]
  · have hlen := harity.length_conv hop
    simp only [resultShape, hop, hlookup 0 (by omega), hlookup 1 (by omega)]

/-! ## Inference as a whole -/

lemma foldlM_recordShape {nodes : List Node} (ha : ∀ n ∈ nodes, n.FitsArity) :
    nodes.foldlM recordShape shapes = fill resultShape shapes nodes := by
  induction nodes generalizing shapes with
  | nil => rfl
  | cons n nodes ih =>
    have hstep : recordShape shapes n = (resultShape shapes n).map (shapes.insert n.result) := by
      rw [recordShape, (ha n (by simp)).results]
      cases resultShape shapes n <;> rfl
    rw [fill, List.foldlM_cons, List.foldlM_cons, hstep]
    congr 1
    funext m
    exact ih fun k hk => ha k (by simp [hk])

/-- Inference changes nothing but the recorded shapes. -/
lemma eq_of_inferShapes (h' : g.inferShapes = .ok h) :
    h = { g with valueShapes := h.valueShapes } := by
  obtain ⟨shapes, -, heq⟩ := bind_eq_ok_iff.1 h'
  obtain rfl := Except.ok.inj heq
  rfl

/-- **Inference succeeds with the solution of the equations of the nodes.** -/
theorem inferShapes_eq_ok_iff (hg : g.WellFormed) : g.inferShapes = .ok h ↔
    Solves resultShape g.sourceShapes g.nodes h.valueShapes ∧
      h = { g with valueShapes := h.valueShapes } := by
  rw [inferShapes, bind_eq_ok_iff, foldlM_recordShape hg.arity]
  simp only [fill_eq_ok_iff resultShape_readsOperands hg.arity hg.ordered, pure_eq_ok,
    Except.ok.injEq]
  constructor
  · rintro ⟨shapes, hsolve, rfl⟩
    exact ⟨hsolve, rfl⟩
  · rintro ⟨hsolve, heq⟩
    exact ⟨h.valueShapes, hsolve, heq.symm⟩

/-- The graph is well formed and records the shapes of all its values. -/
structure IsChecked (g : Graph α) : Prop where
  wellFormed : g.WellFormed
  shapes : Solves resultShape g.sourceShapes g.nodes g.valueShapes

namespace IsChecked

lemma inferShapes (hg : g.IsChecked) : g.inferShapes = .ok g :=
  (inferShapes_eq_ok_iff hg.wellFormed).2 ⟨hg.shapes, rfl⟩

lemma of_inferShapes (hg : g.WellFormed) (h' : g.inferShapes = .ok h) : h.IsChecked := by
  obtain ⟨hsolve, heq⟩ := (inferShapes_eq_ok_iff hg).1 h'
  rw [heq]
  exact ⟨hg.withShapes h.valueShapes, hsolve⟩

/-- The recorded shape of a constant is its own. -/
lemma shape_of_initializer (hg : g.IsChecked) {v : String} {t : Tensor α}
    (hv : g.initializers[v]? = some t) : g.valueShapes[v]? = some t.shape := by
  rw [hg.shapes.frame v (hg.wellFormed.initializer_notMem_written hv), getElem?_sourceShapes, hv]
  rfl

end IsChecked

/-- What checking a graph establishes. -/
theorem isChecked_of_checked (hg : g.checked = .ok h) : h.IsChecked := by
  simp only [checked, bind_eq_ok_iff] at hg
  obtain ⟨sorted, -, ⟨⟩, hvalid, hinfer⟩ := hg
  exact .of_inferShapes (validate_eq_ok_iff.1 hvalid) (mapError_eq_ok_iff.1 hinfer)

end Graph

end ConvFlow
