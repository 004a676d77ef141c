/-
# Writing a graph down and reading it again

A checked graph that is storable survives being written down: every number of an option is read as
it was written, and since the nodes are in order, sorting leaves them in their places
(`toGraph_ofGraph`).

Graphs that have been read, and all that the two rules make of them, are checked and storable.  So
nothing is lost when a program writes its results (`toGraph_ofGraph_of_rewrites`).
-/
import ConvFlow.Proofs.Wire.Storable

namespace ConvFlow

open Outcome

variable {α : Type}

namespace Wire

/-! ## Tensors and inputs -/

lemma toShape_ofShape {s : Shape} (hs : s.FitsWords) : toShape (ofShape s) = s := by
  have hword : ∀ d ∈ s, (UInt32.ofNat d).toNat = d := fun d hd =>
    UInt32.toNat_ofNat_of_lt' (hs d hd)
  rw [toShape, ofShape, List.map_map]
  exact (List.map_congr_left hword).trans (List.map_id' s)

lemma toTensor_ofTensor {t : ConvFlow.Tensor α} (ht : t.Storable) :
    (Tensor.ofTensor t).toTensor = .ok t := by
  have hshape := toShape_ofShape ht.extents
  simp only [Tensor.toTensor, Tensor.ofTensor, hshape]
  rw [if_neg (not_lt.2 ht.count), dif_pos t.size_data]

lemma toDecl_ofDecl {d : ValueDecl} (hd : d.shape.FitsWords) :
    (Operand.ofDecl d).toDecl = .ok d := by
  simp only [Operand.toDecl, Operand.ofDecl, if_true, toShape_ofShape hd]

/-- The constants are read one after another into an empty table. -/
lemma toConstants_ofTensor {constants : NameMap (ConvFlow.Tensor α)} (h : AllStorable constants) :
    toConstants (constants.map fun _ t => Tensor.ofTensor t) = .ok constants := by
  have hfold (l : List (String × ConvFlow.Tensor α)) (m : NameMap (ConvFlow.Tensor α))
      (hl : ∀ c ∈ l, c.2.Storable) :
      (l.map fun c => (c.1, Tensor.ofTensor c.2)).foldlM (fun m (c : String × Tensor α) => do
        let t ← c.2.toTensor.mapError (Error.invalidInitializer c.1)
        return m.insert c.1 t) m = .ok (l.foldl (fun m c => m.insert c.1 c.2) m) := by
    induction l generalizing m with
    | nil => rfl
    | cons c l ih =>
      obtain ⟨hc, hl⟩ := List.forall_mem_cons.1 hl
      rw [List.map_cons, List.foldlM_cons, toTensor_ofTensor hc]
      exact ih (m.insert c.1 c.2) hl
  have hall : ∀ c ∈ constants.toList, c.2.Storable := fun c hc =>
    h c.1 c.2 (Std.ExtTreeMap.mem_toList_iff_getElem?_eq_some.1 hc)
  rw [toConstants, Std.ExtTreeMap.toList_map]
  exact (hfold _ ∅ hall).trans (congrArg Except.ok constants.foldl_insert_toList)

/-! ## Options -/

/-- **Attributes are read as they were written.** -/
lemma readAttributes_writeAttributes {constants : NameMap (ConvFlow.Tensor α)} {n : Node}
    {node : String} {attrs : Conv.Attributes} (hoptions : n.options = writeAttributes attrs)
    (hattrs : attrs.Storable) (hsteps : attrs.PositiveSteps) (hgroup : 0 < attrs.group) :
    readAttributes constants n node = .ok attrs := by
  have hdescribes : Describes constants n attrs := by
    constructor
    case kernel => exact Or.inl ⟨by rw [hoptions]; rfl, hattrs.kernel⟩
    case pads => exact Or.inl ⟨by rw [hoptions]; rfl, hattrs.pads⟩
    case strides => exact Or.inl ⟨by rw [hoptions]; rfl, hattrs.strides⟩
    case dilations => exact Or.inl ⟨by rw [hoptions]; rfl, hattrs.dilations⟩
    case group => exact Or.inl (by rw [hoptions]; rfl)
    case group_pos => exact hgroup
    case steps => exact hsteps
  have hauto : n.options.get? "auto_pad" = none := by
    rw [hoptions]
    rfl
  refine readAttributes_eq_ok_iff.2 ⟨hdescribes, fun mode hmode => ?_⟩
  rw [hauto] at hmode
  simp at hmode

/-! ## Nodes and graphs -/

variable {g h : ConvFlow.Graph α}

/-- A node of a well-formed graph is read as it was written, at any position. -/
lemma toNode_ofNode (hg : g.WellFormed) (hstorable : g.Storable) {n : ConvFlow.Node}
    (hn : n ∈ g.nodes) (position : Nat) :
    (Node.ofNode n).toNode g.initializers position = .ok n := by
  have hread : readOp g.initializers (Node.ofNode n) n.name = .ok n.op := by
    have hkind : OpKind.ofName? (Node.ofNode n).op = some n.op.kind := OpKind.ofName?_name _
    rw [readOp, hkind]
    cases hop : n.op with
    | conv attrs =>
      have hfits := hg.conv n hn attrs hop
      obtain ⟨weights, outChannels, perGroup, -, hweights, -⟩ := hfits.constants
      have hoptions : (Node.ofNode n).options = writeAttributes attrs := by
        rw [Node.ofNode, hop]
        rfl
      have hattrs : readAttributes g.initializers (Node.ofNode n) n.name = .ok attrs :=
        readAttributes_writeAttributes hoptions (hstorable.attributes n hn attrs hop) hfits.steps
          hweights.group_pos
      simp only [Op.kind, hattrs, map_ok]
    | _ => rfl
  have hname : (Node.ofNode n).name.getD s!"{(Node.ofNode n).op}_{position}" = n.name := rfl
  rw [Node.toNode, hname, hread]
  rfl

lemma toUnchecked_ofGraph (hg : g.WellFormed) (hstorable : g.Storable) :
    (Graph.ofGraph g).toUnchecked = .ok { g with valueShapes := ∅ } := by
  have hinputs : (g.inputs.map Operand.ofDecl).mapM Operand.toDecl = .ok g.inputs := by
    rw [mapM_eq_ok_iff, List.forall₂_map_left_iff, List.forall₂_same]
    exact fun d hd => toDecl_ofDecl (hstorable.inputs d hd)
  have hconstants := toConstants_ofTensor hstorable.constants
  simp only [Graph.toUnchecked, Graph.ofGraph, hinputs, hconstants, ok_bind]
  refine bind_eq_ok_iff.2 ⟨g.nodes, mapM_eq_ok_iff.2 (List.forall₂_iff_get.2 ⟨by simp, ?_⟩), rfl⟩
  intro i hi hi'
  simp only [List.get_eq_getElem, List.getElem_zipIdx, List.getElem_map]
  exact toNode_ofNode hg hstorable (List.getElem_mem hi') _

/-- **A checked graph that can be written down is read as it was.** -/
theorem toGraph_ofGraph (hg : g.IsChecked) (hstorable : g.Storable) :
    (Graph.ofGraph g).toGraph = .ok g := by
  rw [Graph.toGraph, toUnchecked_ofGraph hg.wellFormed hstorable, ok_bind, hg.checked_withShapes,
    mapError_ok]

/-! ## What the rules make of a graph -/

variable [Element α] {σ : Type}

/-- One of the two rules transforms the graph into the other. -/
def Rewrites (σ : Type) (g h : ConvFlow.Graph α) : Prop :=
  ∃ (r : Rule σ α) (s : σ), (r = Rule.addPastConv ∨ r = Rule.mulPastConv) ∧
    (r.transform s g).1 = .ok h

lemma Rewrites.storable (hrewrites : Rewrites σ g h) (hg : g.IsChecked ∧ g.Storable) :
    h.IsChecked ∧ h.Storable := by
  obtain ⟨r, s, hr, hdone⟩ := hrewrites
  have hreach := Rule.reach_of_transform hr hg.1 hdone
  clear hdone
  induction hreach with
  | refl => exact hg
  | tail _ hstep ih => exact ⟨hstep.isChecked ih.1, hstep.storable ih.1 ih.2⟩

/-- **Whatever is written is read as it was**: a graph that has been read, and every graph that
the two rules make of it. -/
theorem toGraph_ofGraph_of_rewrites {j : Graph α} (hread : j.toGraph = .ok g)
    (hrewrites : Relation.ReflTransGen (Rewrites σ) g h) :
    (Graph.ofGraph h).toGraph = .ok h := by
  have hh : h.IsChecked ∧ h.Storable := by
    induction hrewrites with
    | refl => exact storable_of_toGraph hread
    | tail _ hstep ih => exact hstep.storable ih
  exact toGraph_ofGraph hh.1 hh.2

/-- A written graph without names, whose convolution leaves its attributes to the weights. -/
def unnamedGraph : Graph Rat where
  name := none
  inputs := [⟨"x", .float32, [1, 1, 3, 3]⟩]
  outputs := ["y"]
  initializers := Std.ExtTreeMap.ofList ([
    ("a", ⟨[1], #[5]⟩),
    ("w", ⟨[1, 1, 2, 2], #[1, 2, 3, 4]⟩)] : List (String × Tensor Rat)) compare
  nodes := [
    ⟨none, "Conv", ["t", "w"], ["y"], [("strides", Json.ofNats [1, 1])]⟩,
    ⟨none, "Add", ["x", "a"], ["t"], []⟩]

/-- The unnamed graph is sorted and its addition is moved; the result survives being written. -/
theorem unnamedGraph_kept : ∃ g h, unnamedGraph.toGraph = .ok g ∧
    ((Rule.addPastConv : Rule Unit Rat).transform () g).1 = .ok h ∧
    h.nodes.map (·.name) = ["Conv_0", "Add_1"] ∧ (Graph.ofGraph h).toGraph = .ok h := by
  obtain ⟨g, h, hread, hdone, hnames⟩ : ∃ g h, unnamedGraph.toGraph = .ok g ∧
      ((Rule.addPastConv : Rule Unit Rat).transform () g).1 = .ok h ∧
      h.nodes.map (·.name) = ["Conv_0", "Add_1"] := ⟨_, _, rfl, rfl, by decide +kernel⟩
  have hrewrites : Rewrites Unit g h := ⟨_, (), Or.inl rfl, hdone⟩
  exact ⟨g, h, hread, hdone, hnames, toGraph_ofGraph_of_rewrites hread (.single hrewrites)⟩

end Wire

end ConvFlow
