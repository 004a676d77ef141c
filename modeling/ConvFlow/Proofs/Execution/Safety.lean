/-
# Checked graphs run

Validation, shape inference and execution visit the nodes of a graph separately.  They meet in
one invariant: the table of a run holds, under each name, a tensor of the shape that inference has
recorded under that name so far (`Typed`).  Every node that inference gives a shape has a result
of this shape (`Typed.runOp_ok`), so the run of a checked graph keeps up with its inference.
-/
import ConvFlow.Proofs.Execution.Guarded
import ConvFlow.Proofs.Execution.Sources

namespace ConvFlow

open Outcome

namespace Tensor

variable {α : Type} [Zero α]

/-- An element-wise operation has a result of the joined shape. -/
lemma exists_zipBroadcast {a b : Tensor α} {s : Shape} (h : a.shape.broadcast b.shape = some s)
    (op : α → α → α) : ∃ t, zipBroadcast op a b = some t ∧ t.shape = s :=
  ⟨_, zipBroadcast_eq_some_iff.2 ⟨s, h, rfl⟩, shape_ofFn _ _⟩

end Tensor

namespace Conv

variable {α : Type} [Element α] {x w : Tensor α} {attrs : Attributes} {s : Shape}
  {outChannels perGroup : Nat}

/-- A convolution with an output shape has a result of this shape, if its bias is a list with one
value for each output channel. -/
lemma exists_conv2d (hs : outputShape x.shape w.shape attrs = .ok s)
    (hw : attrs.FitsWeights w.shape outChannels perGroup) {bias : Option (Tensor α)}
    (hbias : ∀ b, bias = some b → b.shape = [outChannels]) :
    ∃ y, conv2d x w bias attrs = .ok y ∧ y.shape = s := by
  obtain ⟨d, hx, hd, hfit, rfl⟩ := outputShape_eq_ok_iff.1 hs
  obtain ⟨rfl, -⟩ := hw.numbers hd
  obtain ⟨offset, hoffset⟩ : ∃ offset, biasValues bias d.outChannels = .ok offset := by
    cases bias with
    | none => exact ⟨_, rfl⟩
    | some b =>
      have hsize : b.size = d.outChannels := by
        rw [Tensor.size, b.size_data, hbias b rfl]
        simp [Shape.size]
      exact ⟨_, if_pos hsize⟩
  exact ⟨_, conv2d_eq_ok_iff.2 ⟨d, offset, hx, hd, hfit, hoffset, rfl⟩, rfl⟩

end Conv

namespace Execution

variable {α : Type} {g : Graph α} {shapes shapes' : NameMap Shape} {ctx start : Context α}
  {given : NameMap (Tensor α)} {n : Node} {s : Shape} {t : Tensor α} {v : String}

/-- The table holds tensors of exactly the recorded shapes, and the constants are recorded with
their own. -/
structure Typed (g : Graph α) (shapes : NameMap Shape) (ctx : Context α) : Prop where
  entries : ∀ v : String, ctx[v]?.map Tensor.shape = shapes[v]?
  constants : ∀ (v : String) (t : Tensor α), g.initializers[v]? = some t → shapes[v]? = some t.shape

namespace Typed

lemma shape_of_entry (h : Typed g shapes ctx) (hv : ctx[v]? = some t) :
    shapes[v]? = some t.shape := by
  rw [← h.entries v, hv, Option.map_some]

lemma entry_of_shape (h : Typed g shapes ctx) (hv : shapes[v]? = some s) :
    ∃ t, ctx[v]? = some t ∧ t.shape = s := by
  rw [← h.entries v, Option.map_eq_some_iff] at hv
  exact hv

/-- A constant's name may hold another tensor in the table, but one of the constant's shape. -/
lemma entry_of_constant (h : Typed g shapes ctx) (hv : g.initializers[v]? = some t) :
    ∃ u, ctx[v]? = some u ∧ u.shape = t.shape :=
  h.entry_of_shape (h.constants v t hv)

lemma insert (h : Typed g shapes ctx) (hv : g.initializers[v]? = none) :
    Typed g (shapes.insert v t.shape) (ctx.insert v t) := by
  refine ⟨fun u => ?_, fun u c hu => ?_⟩
  · rw [NameMap.getElem?_insert, NameMap.getElem?_insert]
    split
    · rfl
    · exact h.entries u
  · have hne : v ≠ u := by
      rintro rfl
      simp [hv] at hu
    rw [NameMap.getElem?_insert_of_ne hne]
    exact h.constants u c hu

/-- The weights that a node reads from the table fit its attributes. -/
lemma weights (h : Typed g shapes ctx) {attrs : Conv.Attributes} (hconv : g.FitsConv n attrs) :
    ∃ w outChannels perGroup, ctx[n.operand 1]? = some w ∧
      attrs.FitsWeights w.shape outChannels perGroup ∧
      (2 < n.inputs.length → ∃ b, ctx[n.operand 2]? = some b ∧ b.shape = [outChannels]) := by
  obtain ⟨weights, outChannels, perGroup, hweights, hfits, hbias⟩ := hconv.constants
  obtain ⟨w, hw, hshape⟩ := h.entry_of_constant hweights
  refine ⟨w, outChannels, perGroup, hw, hshape ▸ hfits, fun hlen => ?_⟩
  obtain ⟨bias, hb, hbshape⟩ := hbias hlen
  obtain ⟨b, hb', hshape'⟩ := h.entry_of_constant hb
  exact ⟨b, hb', hshape'.trans hbshape⟩

variable [Element α]

/-- **A node with a shape has a result of this shape.** -/
theorem runOp_ok (h : Typed g shapes ctx)
    (hconv : ∀ attrs, n.op = .conv attrs → g.FitsConv n attrs)
    (hs : Graph.resultShape shapes n = .ok s) : ∃ t, runOp ctx n = .ok t ∧ t.shape = s := by
  rcases Graph.op_cases n with hop | hop | ⟨attrs, hop⟩
  · obtain ⟨x, hx, hshape⟩ := h.entry_of_shape ((Graph.resultShape_relu hop).1 hs)
    exact ⟨_, (runOp_relu hop).2 ⟨x, hx, rfl⟩, hshape⟩
  · obtain ⟨a, b, ha, hb, hjoin⟩ := (Graph.resultShape_elementwise hop).1 hs
    obtain ⟨x, hx, rfl⟩ := h.entry_of_shape ha
    obtain ⟨y, hy, rfl⟩ := h.entry_of_shape hb
    obtain ⟨t, ht, hshape⟩ := Tensor.exists_zipBroadcast hjoin (combine n.op)
    exact ⟨t, (runOp_elementwise hop).2 ⟨x, y, hx, hy, ht⟩, hshape⟩
  · obtain ⟨a, b, ha, hb, hout⟩ := (Graph.resultShape_conv hop).1 hs
    obtain ⟨x, hx, rfl⟩ := h.entry_of_shape ha
    obtain ⟨w, outChannels, perGroup, hw, hfits, hbias⟩ := h.weights (hconv attrs hop)
    obtain rfl : b = w.shape := Option.some.inj (hb.symm.trans (h.shape_of_entry hw))
    obtain ⟨bias, hread, hbshape⟩ : ∃ bias, readBias ctx n = .ok bias ∧
        ∀ b, bias = some b → b.shape = [outChannels] := by
      by_cases hlen : 2 < n.inputs.length
      · obtain ⟨b, hb, hshape⟩ := hbias hlen
        refine ⟨some b, readBias_eq_ok_iff.2 ⟨fun _ => ⟨b, hb, rfl⟩, by omega⟩, ?_⟩
        rintro _ ⟨⟩
        exact hshape
      · exact ⟨none, readBias_eq_ok_iff.2 ⟨fun h => absurd h hlen, fun _ => rfl⟩, by simp⟩
    obtain ⟨y, hy, hshape⟩ := Conv.exists_conv2d hout hfits hbshape
    exact ⟨y, (runOp_conv hop).2 ⟨bias, x, w, hread, hx, hw, hy⟩, hshape⟩

/-- The run keeps up with inference: no node fails and no guard stops it. -/
lemma run {nodes : List Node} (h : Typed g shapes ctx) (harity : ∀ n ∈ nodes, n.FitsArity)
    (hconv : ∀ n ∈ nodes, ∀ attrs, n.op = .conv attrs → g.FitsConv n attrs)
    (hnew : ∀ n ∈ nodes, g.initializers[n.result]? = none)
    (hs : Graph.fill Graph.resultShape shapes nodes = .ok shapes') :
    ∃ ctx', nodes.foldlM runNode ctx = .ok ctx' ∧
      nodes.foldlM Guarded.runNode ctx = some ctx' ∧ Typed g shapes' ctx' := by
  induction nodes generalizing shapes ctx with
  | nil =>
    obtain rfl : shapes = shapes' := by simpa using hs
    exact ⟨ctx, rfl, rfl, h⟩
  | cons n nodes ih =>
    rw [List.forall_mem_cons] at harity hconv hnew
    obtain ⟨s, hstep, hrest⟩ := Graph.fill_cons_eq_ok_iff.1 hs
    obtain ⟨t, ht, rfl⟩ := h.runOp_ok hconv.1 hstep
    -- The node has a result of the inferred shape, and it is stored under the same name.
    have hrun : runNode ctx n = .ok (ctx.insert n.result t) := runNode_eq_ok_iff.2 ⟨t, ht, rfl⟩
    have hguarded : Guarded.runNode ctx n = some (ctx.insert n.result t) := by
      refine Guarded.runNode_eq_some harity.1 (fun attrs hop => ?_) hrun
      obtain ⟨w, outChannels, perGroup, hw, hfits, -⟩ := h.weights (hconv.1 attrs hop)
      exact ⟨w, outChannels, perGroup, hw, hfits⟩
    obtain ⟨ctx', hfold, hfold', htyped⟩ :=
      ih (h.insert hnew.1) harity.2 hconv.2 hnew.2 hrest
    refine ⟨ctx', ?_, ?_, htyped⟩
    · rw [List.foldlM_cons, hrun, ok_bind, hfold]
    · rw [List.foldlM_cons, hguarded, Option.bind_eq_bind, Option.bind_some, hfold']

end Typed

/-! ## The run of a checked graph -/

/-- The table that a run starts from has the shapes that inference starts from. -/
lemma typed_start (hapart : g.SourcesApart) (hgiven : Supplies given g.inputs)
    (hstart : IsStart g given start) : Typed g g.sourceShapes start := by
  refine ⟨fun v => ?_, fun v t hv => ?_⟩
  · rw [shape_of_start hgiven hstart, Graph.getElem?_sourceShapes, or_eq_or_iff]
    intro s s' hdeclared hconst
    obtain ⟨d, hd, rfl, -⟩ := Graph.exists_declaration hdeclared
    obtain ⟨t, ht, -⟩ := Option.map_eq_some_iff.1 hconst
    rw [hapart.initializer_eq_none (List.any_eq_true.2 ⟨d, hd, by simp⟩)] at ht
    simp at ht
  · rw [Graph.getElem?_sourceShapes, hv]
    rfl

variable [Element α]

/-- Before each node of a checked graph the run has reached a table of the shapes that inference
has reached. -/
lemma exists_run (hg : g.IsChecked) (hstart : Typed g g.sourceShapes start)
    {done rest : List Node} (hnodes : g.nodes = done ++ rest) :
    ∃ ctx shapes, done.foldlM runNode start = .ok ctx ∧
      done.foldlM Guarded.runNode start = some ctx ∧ Typed g shapes ctx ∧
      Graph.fill Graph.resultShape g.sourceShapes done = .ok shapes ∧
      Graph.fill Graph.resultShape shapes rest = .ok g.valueShapes := by
  have hfill := (Graph.fill_eq_ok_iff Graph.resultShape_readsOperands hg.wellFormed.arity
    hg.wellFormed.ordered).2 hg.shapes
  rw [hnodes] at hfill
  obtain ⟨shapes, hdone, hrest⟩ := Graph.fill_append_eq_ok_iff.1 hfill
  have hmem : ∀ n ∈ done, n ∈ g.nodes := fun n hn => by simp [hnodes, hn]
  have hnew : ∀ n ∈ done, g.initializers[n.result]? = none := by
    intro n hn
    by_contra hsome
    obtain ⟨t, ht⟩ := Option.ne_none_iff_exists'.1 hsome
    exact hg.wellFormed.initializer_notMem_written ht (Graph.result_mem_written (hmem n hn))
  obtain ⟨ctx, hrun, hguarded, htyped⟩ := hstart.run
    (fun n hn => hg.wellFormed.arity n (hmem n hn))
    (fun n hn => hg.wellFormed.conv n (hmem n hn)) hnew hdone
  exact ⟨ctx, shapes, hrun, hguarded, htyped, hdone, hrest⟩

/-- Two convolutions, behind a shift by a constant and behind a scaling.  The constant of the shift
is added once more at the end. -/
def smallGraph : Graph Rat where
  name := "small"
  inputs := [⟨"x", [1, 1, 2, 2]⟩]
  outputs := ["lifted", "clipped"]
  nodes := [
    ⟨"shift", .add, ["x", "offset"], ["shifted"]⟩,
    ⟨"first", .conv { kernel := ⟨2, 2⟩ }, ["shifted", "kernels", "bias"], ["image"]⟩,
    ⟨"scale", .mul, ["factor", "image"], ["scaled"]⟩,
    ⟨"second", .conv { kernel := ⟨1, 1⟩, group := 2 }, ["scaled", "weights"], ["result"]⟩,
    ⟨"lift", .add, ["result", "offset"], ["lifted"]⟩,
    ⟨"clip", .relu, ["lifted"], ["clipped"]⟩]
  initializers := Std.ExtTreeMap.ofList ([
    ("offset", .fill [1] 3),
    ("kernels", .ofFn [2, 1, 2, 2] fun idx => idx.getLastD 0),
    ("bias", .ofFn [2] fun idx => idx.getLastD 0),
    ("factor", .fill [] (1 / 2)),
    ("weights", .fill [2, 1, 1, 1] 4)] : List (String × Tensor Rat)) compare
  valueShapes := ∅

/-- An image for the small graph. -/
def smallInput : NameMap (Tensor Rat) :=
  (∅ : NameMap (Tensor Rat)).insert "x" (.ofFn [1, 1, 2, 2] fun idx => idx.getLastD 0)

end Execution

end ConvFlow
