/-
# The moves of the two rules

A pair of nodes may be exchanged if its constant commutes with the convolution: an addition in
front of a convolution without padding, with its constant pushed through the kernel, or a
multiplication by a single number in front of a convolution without bias (`Pair.Legal`).  `Moves`
is the relation between a graph and what one such exchange makes of it.  Whatever the two rules do
is a move, and after a move inference finds the shapes it had found before, at all names but two.
-/
import ConvFlow.Proofs.Conv.Linear
import ConvFlow.Proofs.Rules.Exchange
import ConvFlow.Rules.MulPastConv

namespace ConvFlow.Graph

open Outcome

variable {α : Type} [Element α] {g h : Graph α}

/-- What allows a pair of nodes to be exchanged, and the constant that the operation reads
afterwards. -/
inductive Pair.Legal (p : Pair g) (value : Tensor α) : Prop where
  /-- Without padding, an added constant is pushed through the kernel. -/
  | add {addend weights : Tensor α} (op : p.op.op = .add) (unpadded : p.attrs.isPadded = false)
      (addend_eq : g.initializers[p.constant]? = some addend)
      (weights_eq : g.initializers[p.conv.operand 1]? = some weights)
      (folded : Conv.foldThroughKernel addend weights p.attrs.group = some value)
  /-- Without bias, a single number that multiplies stays as it is. -/
  | mul (op : p.op.op = .mul) (unbiased : p.conv.inputs.length ≤ 2)
      (factor_eq : g.initializers[p.constant]? = some value) (single : value.size = 1)

/-- One exchange leads from the one graph to the other. -/
def Moves (g h : Graph α) : Prop :=
  ∃ (p : Pair g) (name : String) (value : Tensor α),
    p.Free name value ∧ p.Legal value ∧ h = p.exchange name value

/-- One exchange of an operation of the given kind leads from the one graph to the other. -/
def MovesOf (kind : OpKind) (g h : Graph α) : Prop :=
  ∃ (p : Pair g) (name : String) (value : Tensor α), p.op.op.kind = kind ∧
    p.Free name value ∧ p.Legal value ∧ h = p.exchange name value

lemma MovesOf.moves {kind : OpKind} (h' : MovesOf kind g h) : Moves g h := by
  obtain ⟨p, name, value, -, hfree, hlegal, hexchange⟩ := h'
  exact ⟨p, name, value, hfree, hlegal, hexchange⟩

/-! ## What the rules do -/

omit [Element α] in
lemma set_operand_self (n : Node) (i : Nat) : n.inputs.set i (n.operand i) = n.inputs := by
  by_cases hi : i < n.inputs.length
  · simp [Node.operand, hi]
  · exact List.set_eq_of_length_le (not_lt.1 hi)

omit [Element α] in
/-- Storing a constant under its own name changes nothing. -/
lemma withConstant_self {kind : OpKind} {i : Nat} {site : Site} (h : g.site? kind i = some site)
    {t : Tensor α} (ht : g.initializers[site.constant]? = some t) :
    Rule.withConstant g site site.constant t = g := by
  obtain ⟨n, c, hn, -, -, -, -, -, -, -, hop, hconstant⟩ := site?_eq_some h
  obtain ⟨xs, ys, hnodes, hlen⟩ := exists_split hn
  have hinit : g.initializers.insert site.constant t = g.initializers := by
    refine Std.ExtTreeMap.ext_getElem? fun v => ?_
    rw [NameMap.getElem?_insert]
    split
    · rename_i heq
      rw [← heq, ht]
    · rfl
  have hmodify : g.nodes.modify site.op (fun n =>
      { n with inputs := n.inputs.set (1 - site.dataSlot) site.constant }) = g.nodes := by
    rw [hnodes, hop, ← hlen, modify_list, hconstant, set_operand_self]
  rw [Rule.withConstant, hinit, hmodify]

lemma movesOf_of_addPastConvAt (hg : g.IsChecked) {i : Nat}
    (h' : Rule.addPastConvAt g i = some h) : MovesOf .add g h := by
  obtain ⟨site, hsite, h'⟩ := Option.bind_eq_some_iff.1 h'
  obtain ⟨c, hc, h'⟩ := Option.bind_eq_some_iff.1 h'
  obtain ⟨p, hkind, hconstant, hconv, hmove⟩ := exists_pair hg (Or.inl rfl) hsite
  obtain rfl : p.conv = c := Option.some.inj (hconv.symm.trans hc)
  have hop := eq_add_of_kind hkind
  rw [p.conv_op] at h'
  obtain ⟨hpad, h'⟩ := guard_bind_eq_some_iff.1 h'
  obtain ⟨addend, haddend, h'⟩ := Option.bind_eq_some_iff.1 h'
  obtain ⟨weights, hweights, h'⟩ := Option.bind_eq_some_iff.1 h'
  obtain ⟨folded, hfold, h'⟩ := Option.bind_eq_some_iff.1 h'
  obtain rfl := Option.some.inj h'
  rw [Bool.not_eq_true'] at hpad
  rw [← hconstant] at haddend
  refine ⟨p, Rule.addendName g site, folded, hkind, ?_, .add hop hpad haddend hweights hfold,
    hmove _ _⟩
  rw [Rule.addendName, ← hconstant]
  split
  · rename_i hone
    exact p.free_of_consumers hone folded
  · exact p.free_freshName hg.wellFormed p.constant folded

lemma movesOf_of_mulPastConvAt (hg : g.IsChecked) {i : Nat}
    (h' : Rule.mulPastConvAt g i = some h) :
    MovesOf .mul g h ∧ h.initializers = g.initializers := by
  obtain ⟨site, hsite, h'⟩ := Option.bind_eq_some_iff.1 h'
  obtain ⟨factor, hfactor, h'⟩ := Option.bind_eq_some_iff.1 h'
  obtain ⟨hsingle, h'⟩ := guard_bind_eq_some_iff.1 h'
  obtain ⟨c, hc, h'⟩ := Option.bind_eq_some_iff.1 h'
  obtain ⟨hbias, h'⟩ := guard_bind_eq_some_iff.1 h'
  obtain rfl := Option.some.inj h'
  rw [beq_iff_eq] at hsingle
  obtain ⟨p, hkind, hconstant, hconv, hmove⟩ := exists_pair hg (Or.inr rfl) hsite
  obtain rfl : p.conv = c := Option.some.inj (hconv.symm.trans hc)
  have hop := eq_mul_of_kind hkind
  have hself := hmove site.constant factor
  rw [withConstant_self hsite hfactor, ← hconstant] at hself
  rw [← hconstant] at hfactor
  exact ⟨⟨p, p.constant, factor, hkind, p.free_self hfactor, .mul hop hbias hfactor hsingle,
    hself⟩, initializers_moveAlong site⟩

/-! ## The shapes after a move -/

omit [Element α] in
/-- The shape of an element-wise node, whichever slot its operands are in. -/
lemma resultShape_slotted {shapes : NameMap Shape} {n : Node} {s : Shape} {slot : Nat}
    {a b : String} (hop : n.IsElementwise) (hin : n.inputs = slotted slot a b) :
    resultShape shapes n = .ok s ↔ ∃ x c, shapes[a]? = some x ∧ shapes[b]? = some c ∧
      x.broadcast c = some s := by
  rw [resultShape_elementwise hop]
  by_cases hslot : slot = 0
  · simp [Node.operand, hin, slotted, hslot]
  · simp only [Node.operand, hin, slotted, if_neg hslot, List.getD_cons_zero, List.getD_cons_succ]
    constructor
    · rintro ⟨c, x, hc, hx, hjoin⟩
      exact ⟨x, c, hx, hc, Shape.broadcast_comm c x ▸ hjoin⟩
    · rintro ⟨x, c, hx, hc, hjoin⟩
      exact ⟨c, x, hc, hx, Shape.broadcast_comm x c ▸ hjoin⟩

namespace Pair

variable {p : Pair g} {name : String} {value : Tensor α}

omit [Element α] in
lemma conv_operand_zero (p : Pair g) : p.conv.operand 0 = p.between := by
  simp [Node.operand, p.conv_inputs]

omit [Element α] in
lemma newConv_operand_zero (p : Pair g) : p.newConv.operand 0 = p.start := rfl

omit [Element α] in
/-- What holds of the table under the names that the new convolution reads. -/
lemma table_conv_operand {β : Type} {m : NameMap β} {b z : β} (hg : g.WellFormed)
    (hfree : p.Free name value) (hread : g.initializers[name]? = some value → m[name]? = some b)
    {i : Nat} (hi : 1 ≤ i) (hlt : i < p.conv.inputs.length) :
    (p.table m name b z)[p.newConv.operand i]? = m[p.conv.operand i]? := by
  have hmem : p.conv.operand i ∈ p.conv.inputs := Node.operand_mem hlt
  rw [newConv_operand p hi]
  refine getElem?_table (fun heq => ?_) fun heq => ?_
  · -- The image is the only operand of the convolution that a node computes.
    obtain ⟨k, rfl⟩ := Nat.exists_eq_add_of_le' hi
    have hconst : p.conv.operand (k + 1) ∈ p.constants := by
      rw [p.conv_inputs, List.length_cons, Nat.add_lt_add_iff_right] at hlt
      simp [Node.operand, p.conv_inputs, hlt]
    obtain ⟨t, ht⟩ := isInitializer_iff_exists.1 (p.constants_known _ hconst)
    exact hg.initializer_notMem_written ht (heq ▸ p.between_mem_written)
  · rw [heq] at hmem ⊢
    exact hread (hfree.unread p.conv p.conv_mem hmem)

omit [Element α] in
/-- The shapes around a pair: the operation keeps the shape `x` of the computed operand, and the
convolution turns it into `out`. -/
lemma exists_shapes (p : Pair g) (hg : g.IsChecked) : ∃ x c w out : Shape,
    g.valueShapes[p.start]? = some x ∧ g.valueShapes[p.constant]? = some c ∧
      x.broadcast c = some x ∧ g.valueShapes[p.conv.operand 1]? = some w ∧
      Conv.outputShape x w p.attrs = .ok out ∧ g.valueShapes[p.last]? = some out := by
  obtain ⟨s, hop, hbetween⟩ := hg.shapes.entry p.op p.op_mem_nodes
  obtain ⟨out, hconv, hlast⟩ := hg.shapes.entry p.conv p.conv_mem_nodes
  obtain ⟨x, c, hstart, hc, hjoin⟩ := (resultShape_slotted p.elementwise p.op_inputs).1 hop
  obtain ⟨t, w, ht, hw, hout⟩ := (resultShape_conv p.conv_op).1 hconv
  rw [p.op_result] at hbetween
  rw [p.conv_result] at hlast
  rw [p.conv_operand_zero, hbetween] at ht
  obtain rfl := Option.some.inj ht
  rw [p.keeps_shape, hstart] at hbetween
  obtain rfl := Option.some.inj hbetween
  exact ⟨x, c, w, out, hstart, hc, hjoin, hw, hout, hlast⟩

/-- The new constant stretches over what the convolution computes. -/
lemma Legal.broadcast (hlegal : p.Legal value) (hg : g.IsChecked) {x c w out : Shape}
    (hc : g.valueShapes[p.constant]? = some c) (hjoin : x.broadcast c = some x)
    (hw : g.valueShapes[p.conv.operand 1]? = some w)
    (hout : Conv.outputShape x w p.attrs = .ok out) : out.broadcast value.shape = some out := by
  cases hlegal with
  | add _ _ _ hweights hfolded =>
    rw [hg.shape_of_initializer hweights] at hw
    obtain rfl := Option.some.inj hw
    exact Conv.broadcast_output_of_fold hout hfolded
  | mul _ _ hfactor hsingle =>
    rw [hg.shape_of_initializer hfactor] at hc
    obtain rfl := Option.some.inj hc
    exact Conv.broadcast_output_of_size_eq_one hout (value.size_data ▸ hsingle) hjoin

omit [Element α] in
lemma sourceShapes_exchange (v : String) : (p.exchange name value).sourceShapes[v]? =
    if name = v then some value.shape else g.sourceShapes[v]? := by
  rw [getElem?_sourceShapes, getElem?_sourceShapes, getElem?_initializers_exchange]
  split <;> rfl

/-- **After a move inference succeeds.**  It finds new shapes only for the constant and for the
value between the two nodes, which takes the shape of what the convolution computes. -/
theorem inferShapes_exchange (hg : g.IsChecked) (hfree : p.Free name value)
    (hlegal : p.Legal value) : ∃ s, g.valueShapes[p.last]? = some s ∧
      (p.exchange name value).inferShapes = .ok
        { p.exchange name value with valueShapes := p.table g.valueShapes name value.shape s } := by
  obtain ⟨x, c, w, out, hstart, hc, hjoin, hw, hout, hlast⟩ := p.exists_shapes hg
  have hread : g.initializers[name]? = some value →
      g.valueShapes[name]? = some value.shape := hg.shape_of_initializer
  refine ⟨out, hlast,
    (inferShapes_eq_ok_iff (wellFormed_exchange hg.wellFormed hfree)).2 ⟨?_, rfl⟩⟩
  have hne := hfree.ne_between hg.wellFormed
  refine solves_exchange hg.wellFormed hfree resultShape_readsOperands hg.shapes
    sourceShapes_exchange hread ?_ ?_ hlast
  · have hlen := (hg.wellFormed.arity _ p.conv_mem_nodes).length_conv p.conv_op
    refine (resultShape_conv (n := p.newConv) p.conv_op).2 ⟨x, w, ?_, ?_, hout⟩
    · rw [newConv_operand_zero, getElem?_table_of_ne (p.start_ne_between hg.wellFormed)
        (hfree.ne_start hg.wellFormed).symm, hstart]
    · rw [table_conv_operand hg.wellFormed hfree hread (by omega) (by omega), hw]
  · refine (resultShape_slotted (n := p.newOp name) p.elementwise rfl).2
      ⟨out, value.shape, getElem?_table_between, getElem?_table_name hne, ?_⟩
    exact hlegal.broadcast hg hc hjoin hw hout

end Pair

end ConvFlow.Graph
