/-
# Operations and convolutions in a line

A `Line` is a graph whose nodes form a single chain of operations that a rule may move and of
convolutions that let them pass, in any order.  The rule changes a line into a line
(`Line.advances`): the chain is the same but for two neighbours that have changed places, and the
constant that has been pushed through a convolution can be pushed through the next one.

As long as an operation stands directly in front of a convolution, the two are a legal pair
(`Line.exists_pair`).  So when the rule declines, all convolutions have come to the front
(`Line.exists_split`).
-/
import ConvFlow.Proofs.Conv.Fold
import ConvFlow.Proofs.Graph.Chain
import ConvFlow.Proofs.Graph.Order
import ConvFlow.Proofs.Rules.Search

namespace ConvFlow

open Outcome

/-! ## Operations and convolutions -/

namespace RuleChoice

variable {α : Type}

/-- The rule can push the constant on: a single number, or, for additions, one number for each
channel. -/
def CanPush (t : RuleChoice) (c : Tensor α) : Prop :=
  c.size = 1 ∨ t = addPastConv ∧ ∃ channels, c.shape = [1, channels, 1, 1]

/-- The node is an operation of the rule on a constant that the rule can push on, and keeps the
shape of what it computes from. -/
structure CanMove (t : RuleChoice) (g : Graph α) (n : Node) : Prop where
  kind : n.op.kind = t.kind
  constant : ∃ v ∈ n.inputs, ∃ c, g.initializers[v]? = some c ∧ t.CanPush c
  shape : ∀ v ∈ g.computedInputs n, g.valueShapes[n.result]? = g.valueShapes[v]?

/-- The node is a convolution that lets the operations of the rule pass: without padding for
additions, without bias for multiplications. -/
def LetsPass : RuleChoice → Node → Prop
  | addPastConv, n => ∃ attrs, n.op = .conv attrs ∧ attrs.isPadded = false
  | mulPastConv, n => (∃ attrs, n.op = .conv attrs) ∧ n.inputs.length ≤ 2

variable {t : RuleChoice} {g : Graph α} {n n' : Node}

lemma kind_ne_conv (t : RuleChoice) : t.kind ≠ .conv := by
  cases t <;> simp [kind]

lemma LetsPass.exists_attrs (h : t.LetsPass n) : ∃ attrs, n.op = .conv attrs := by
  cases t with
  | addPastConv =>
    obtain ⟨attrs, hop, -⟩ := h
    exact ⟨attrs, hop⟩
  | mulPastConv => exact h.1

lemma LetsPass.kind (h : t.LetsPass n) : n.op.kind = .conv := by
  obtain ⟨attrs, hop⟩ := h.exists_attrs
  rw [hop]
  rfl

/-- What lets operations pass depends on the operation and on the number of operands. -/
lemma LetsPass.congr (h : t.LetsPass n) (hop : n'.op = n.op)
    (hlen : n'.inputs.length = n.inputs.length) : t.LetsPass n' := by
  cases t with
  | addPastConv =>
    obtain ⟨attrs, hconv, hpad⟩ := h
    exact ⟨attrs, hop.trans hconv, hpad⟩
  | mulPastConv =>
    obtain ⟨⟨attrs, hconv⟩, hbias⟩ := h
    exact ⟨⟨attrs, hop.trans hconv⟩, hlen ▸ hbias⟩

/-- The constant that arrives behind a convolution can be pushed on again. -/
lemma canPush_of_legal [Element α] {p : Graph.Pair g} {value : Tensor α}
    (hkind : p.op.op.kind = t.kind) (hlegal : p.Legal value) : t.CanPush value := by
  cases hlegal with
  | add hop _ _ _ hfolded =>
    rw [hop] at hkind
    exact Or.inr ⟨eq_addPastConv_of_kind hkind.symm, _, Conv.shape_foldThroughKernel hfolded⟩
  | mul _ _ _ hsingle => exact Or.inl hsingle

end RuleChoice

namespace Graph

variable {α : Type} {g k : Graph α} {t : RuleChoice} {start last a v : String} {n c : Node}
  {xs ys : List Node}

/-! ## The nodes of a chain, taken apart -/

/-- An element-wise operation in a chain combines a computed value with a constant. -/
lemma exists_slotted (hlen : n.inputs.length = 2) (hcomputed : g.computedInputs n = [a]) :
    ∃ slot b, n.inputs = slotted slot a b ∧ g.isInitializer b = true := by
  obtain ⟨u, w, hin⟩ := List.length_eq_two.1 hlen
  rw [computedInputs, hin] at hcomputed
  cases hu : g.isInitializer u with
  | false =>
    cases hw : g.isInitializer w with
    | false => simp [hu, hw] at hcomputed
    | true =>
      obtain rfl : u = a := by simpa [hu, hw] using hcomputed
      exact ⟨0, w, hin, hw⟩
  | true =>
    cases hw : g.isInitializer w with
    | false =>
      obtain rfl : w = a := by simpa [hu, hw] using hcomputed
      exact ⟨1, u, hin, hu⟩
    | true => simp [hu, hw] at hcomputed

/-- All operands of a convolution but its image are constants. -/
lemma FitsConv.isInitializer {attrs : Conv.Attributes} {constants : List String}
    (hfit : g.FitsConv n attrs) (hlen : n.inputs.length = 2 ∨ n.inputs.length = 3)
    (hin : n.inputs = a :: constants) (hv : v ∈ constants) : g.isInitializer v = true := by
  obtain ⟨weights, outChannels, -, hweights, -, hbias⟩ := hfit.constants
  obtain ⟨i, hi, rfl⟩ := List.getElem_of_mem hv
  have hoperand : n.operand (i + 1) = constants[i] := by simp [Node.operand, hin, hi]
  rw [hin, List.length_cons] at hlen hbias
  obtain rfl | rfl : i = 0 ∨ i = 1 := by omega
  · exact isInitializer_iff_exists.2 ⟨weights, hoperand ▸ hweights⟩
  · obtain ⟨bias, hb, -⟩ := hbias (by omega)
    exact isInitializer_iff_exists.2 ⟨bias, hoperand ▸ hb⟩

/-- A convolution in a chain computes from its image. -/
lemma exists_image (hg : g.WellFormed) (hn : n ∈ g.nodes) {attrs : Conv.Attributes}
    (hop : n.op = .conv attrs) (hcomputed : g.computedInputs n = [a]) :
    ∃ constants, n.inputs = a :: constants ∧ ∀ v ∈ constants, g.isInitializer v = true := by
  have hlen := (hg.arity n hn).length_conv hop
  obtain ⟨u, constants, hin⟩ : ∃ u constants, n.inputs = u :: constants :=
    List.exists_cons_of_length_pos (by omega)
  have hconstants : ∀ v ∈ constants, g.isInitializer v = true :=
    fun v hv => (hg.conv n hn attrs hop).isInitializer hlen hin hv
  have hrest : constants.filter (fun v => !g.isInitializer v) = [] :=
    List.filter_eq_nil_iff.2 fun v hv => by simp [hconstants v hv]
  rw [computedInputs, hin, List.filter_cons, hrest] at hcomputed
  split at hcomputed
  · obtain rfl := List.head_eq_of_cons_eq hcomputed
    exact ⟨constants, hin, hconstants⟩
  · simp at hcomputed

/-- A chain does not depend on the recorded shapes. -/
lemma Chain.recording (h : g.Chain a xs v) (m : NameMap Shape) : (g.recording m).Chain a xs v :=
  Chain.congr (g := g) (h := g.recording m) (fun _ _ => rfl) h

/-- A change is an exchange, after which inference records the shape of the last value of the pair
for the value in between, too. -/
lemma Advances.exists_exchange [Element α] (h : g.Advances k) (hg : g.IsChecked) :
    ∃ (p : Pair g) (name : String) (value : Tensor α) (s : Shape), p.Free name value ∧
      p.Legal value ∧ g.valueShapes[p.last]? = some s ∧
      k = (p.exchange name value).recording (p.table g.valueShapes name value.shape s) := by
  obtain ⟨_, ⟨p, name, value, hfree, hlegal, rfl⟩, hinfer⟩ := h
  obtain ⟨s, hlast, hs⟩ := Pair.inferShapes_exchange hg hfree hlegal
  exact ⟨p, name, value, s, hfree, hlegal, hlast, Except.ok.inj (hinfer.symm.trans hs)⟩

/-! ## Lines -/

/-- A checked graph whose nodes form a chain up to its only output, all of them operations that the
rule can move or convolutions that let them pass. -/
structure Line (t : RuleChoice) (start last : String) (g : Graph α) : Prop where
  checked : g.IsChecked
  chain : g.Chain start g.nodes last
  outputs : g.outputs = [last]
  each : ∀ n ∈ g.nodes, t.CanMove g n ∨ t.LetsPass n

namespace Line

lemma canMove (hg : Line t start last g) (hn : n ∈ g.nodes) (hop : n.op.kind ≠ .conv) :
    t.CanMove g n :=
  (hg.each n hn).resolve_right fun h => hop h.kind

lemma letsPass (hg : Line t start last g) (hn : n ∈ g.nodes) (hop : n.op.kind = .conv) :
    t.LetsPass n :=
  (hg.each n hn).resolve_left fun h => t.kind_ne_conv (h.kind.symm.trans hop)

/-! ### One change -/

lemma op_kind (hg : Line t start last g) (p : Pair g) : p.op.op.kind = t.kind :=
  (hg.canMove p.op_mem_nodes p.op_kind_ne_conv).kind

/-- The operation of a pair stands directly in front of the convolution. -/
lemma mid_eq_nil (hg : Line t start last g) (p : Pair g) : p.mid = [] := by
  have hchain := hg.chain
  rw [p.nodes_eq] at hchain
  obtain ⟨v, -, -, hrest⟩ := Chain.append_iff.1 hchain
  cases hmid : p.mid with
  | nil => rfl
  | cons n rest =>
    -- A node in between would read the result of the operation.
    rw [hmid, List.cons_append] at hrest
    have hread : p.between ∈ g.computedInputs n := by
      rw [hrest.1, p.op_result]
      exact List.mem_singleton_self _
    exact absurd (mem_computedInputs_iff.1 hread).1 (p.unread n (by simp [hmid]))

end Line

namespace Pair

variable {p : Pair g} {name : String} {value : Tensor α}

/-- The operation reads one constant only. -/
lemma eq_constant (p : Pair g) (hv : v ∈ p.op.inputs) (hknown : g.isInitializer v = true) :
    v = p.constant := by
  have hne : v ≠ p.start := by
    rintro rfl
    rw [p.start_computed] at hknown
    cases hknown
  rw [p.op_inputs, slotted] at hv
  split at hv
  · exact (List.mem_pair.1 hv).resolve_left hne
  · exact (List.mem_pair.1 hv).resolve_right hne

/-- Other nodes compute from what they computed from before. -/
lemma computedInputs_exchange (hfree : p.Free name value)
    (hn : n ∈ p.before ++ (p.mid ++ p.after)) :
    (p.exchange name value).computedInputs n = g.computedInputs n := by
  refine List.filter_congr fun v hv => ?_
  have hsame := hfree.initializers_of_read (mem_readers_of_rest hn) hv
  rw [isInitializer, isInitializer, Std.ExtTreeMap.contains_eq_isSome_getElem?,
    Std.ExtTreeMap.contains_eq_isSome_getElem?, hsame]

lemma computedInputs_newConv (hg : g.WellFormed) (hfree : p.Free name value) :
    (p.exchange name value).computedInputs p.newConv = [p.start] := by
  have hstart : (p.exchange name value).isInitializer p.start = false := by
    rw [isInitializer_eq_false_iff, getElem?_initializers_exchange, if_neg (hfree.ne_start hg),
      isInitializer_eq_false_iff.1 p.start_computed]
  have hconstants : p.constants.filter
      (fun v => !(p.exchange name value).isInitializer v) = [] := by
    refine List.filter_eq_nil_iff.2 fun v hv => ?_
    obtain ⟨u, hu⟩ := isInitializer_iff_exists.1 (p.constants_known v hv)
    have hread : v ∈ p.conv.inputs := p.conv_inputs ▸ List.mem_cons_of_mem _ hv
    have hknown : (p.exchange name value).isInitializer v = true :=
      isInitializer_iff_exists.2 ⟨u, (hfree.initializers_of_read p.conv_mem hread).trans hu⟩
    simp [hknown]
  rw [computedInputs, newConv, List.filter_cons, hstart, hconstants]
  rfl

lemma computedInputs_newOp (hg : g.WellFormed) (hfree : p.Free name value) :
    (p.exchange name value).computedInputs (p.newOp name) = [p.between] := by
  have hbetween : (p.exchange name value).isInitializer p.between = false := by
    rw [isInitializer_eq_false_iff, getElem?_initializers_exchange, if_neg (hfree.ne_between hg)]
    exact isInitializer_eq_false_iff.1 (hg.isInitializer_of_written p.between_mem_written)
  have hname : (p.exchange name value).isInitializer name = true :=
    isInitializer_iff_exists.2 ⟨value, by rw [getElem?_initializers_exchange, if_pos rfl]⟩
  rw [computedInputs, newOp, slotted]
  split <;> simp [hbetween, hname]

end Pair

namespace Line

variable {p : Pair g} {name : String} {value : Tensor α}

/-- The chain of a line with the two nodes of a pair exchanged. -/
lemma chain_exchange (hg : Line t start last g) (hfree : p.Free name value) :
    (p.exchange name value).Chain start (p.exchange name value).nodes last := by
  have hmid := hg.mid_eq_nil p
  have hchain := hg.chain
  have hwf := hg.checked.wellFormed
  rw [p.nodes_eq, hmid, List.nil_append, Chain.append_iff] at hchain
  obtain ⟨v, hbefore, hop, -, hafter⟩ := hchain
  rw [p.conv_result] at hafter
  -- The operation computes from the value that the nodes in front of it lead to.
  obtain rfl : p.start = v := by
    have hstart : p.start ∈ g.computedInputs p.op :=
      mem_computedInputs_iff.2 ⟨p.start_mem, p.start_computed⟩
    rw [hop] at hstart
    exact List.mem_singleton.1 hstart
  rw [Pair.nodes_exchange, hmid, List.nil_append]
  refine Chain.append_iff.2 ⟨p.start, hbefore.congr fun n hn => ?_, ?_, ?_,
    hafter.congr fun n hn => ?_⟩
  · exact Pair.computedInputs_exchange hfree (by simp [hn])
  · exact Pair.computedInputs_newConv hwf hfree
  · exact Pair.computedInputs_newOp hwf hfree
  · exact Pair.computedInputs_exchange hfree (by simp [hn])

variable {s : Shape}

/-- Other operations can be moved as before: they read the same constants, and the shapes of the
values around them stay. -/
lemma canMove_rest (hg : g.WellFormed) (hfree : p.Free name value)
    (hn : n ∈ p.before ++ (p.mid ++ p.after)) (hmove : t.CanMove g n) :
    t.CanMove ((p.exchange name value).recording
      (p.table g.valueShapes name value.shape s)) n := by
  obtain ⟨v, hv, c, hc, hpush⟩ := hmove.constant
  refine ⟨hmove.kind, ⟨v, hv, c, ?_, hpush⟩, fun u hu => ?_⟩
  · exact (hfree.initializers_of_read (Pair.mem_readers_of_rest hn) hv).trans hc
  · have hcomputed : (p.exchange name value).isInitializer u = false :=
      (mem_computedInputs_iff.1 hu).2
    have hread : u ∈ n.inputs := (mem_computedInputs_iff.1 hu).1
    have hbefore : u ∈ g.computedInputs n := by
      rw [← Pair.computedInputs_exchange hfree hn]
      exact mem_computedInputs_iff.2 ⟨hread, hcomputed⟩
    have hresult : n.result ≠ name := fun heq =>
      hfree.notMem_written hg (heq ▸ result_mem_written (Pair.mem_nodes_of_rest hn))
    show (p.table _ _ _ _)[n.result]? = (p.table _ _ _ _)[u]?
    rw [Pair.getElem?_table_of_ne (Pair.result_ne_between hg hn) hresult,
      Pair.getElem?_table_of_ne (fun heq => p.unread n hn (heq ▸ hread))
        (Pair.computed_of_exchange hcomputed).1.symm]
    exact hmove.shape u hbefore

variable [Element α]

/-- Behind the convolution the operation can be moved again. -/
lemma canMove_newOp (hg : Line t start last g) (hfree : p.Free name value)
    (hlegal : p.Legal value) (hlast : g.valueShapes[p.last]? = some s) :
    t.CanMove ((p.exchange name value).recording (p.table g.valueShapes name value.shape s))
      (p.newOp name) := by
  have hwf := hg.checked.wellFormed
  refine ⟨hg.op_kind p, ⟨name, ?_, value, ?_, t.canPush_of_legal (hg.op_kind p) hlegal⟩,
    fun u hu => ?_⟩
  · rw [Pair.newOp, slotted]
    split <;> simp
  · show (p.exchange name value).initializers[name]? = some value
    rw [Pair.getElem?_initializers_exchange, if_pos rfl]
  · have hu' : u ∈ (p.exchange name value).computedInputs (p.newOp name) := hu
    rw [Pair.computedInputs_newOp hwf hfree, List.mem_singleton] at hu'
    subst hu'
    show (p.table _ _ _ _)[p.last]? = (p.table _ _ _ _)[p.between]?
    rw [Pair.getElem?_table_between, Pair.getElem?_table_of_ne (p.last_ne_between hwf)
      (hfree.ne_last hwf).symm, hlast]

/-- **A change leads from a line to a line.** -/
theorem advances (hg : Line t start last g) (hstep : g.Advances k) : Line t start last k := by
  have hk := hstep.isChecked hg.checked
  obtain ⟨p, name, value, s, hfree, hlegal, hlast, rfl⟩ := hstep.exists_exchange hg.checked
  refine ⟨hk, (hg.chain_exchange hfree).recording _, hg.outputs, fun n hn => ?_⟩
  have hmem : n ∈ (p.exchange name value).nodes := hn
  rcases Pair.mem_nodes_exchange hmem with rfl | rfl | hrest
  · have hpass : t.LetsPass p.conv := hg.letsPass p.conv_mem_nodes p.conv_kind
    exact Or.inr (hpass.congr rfl (by simp [Pair.newConv, p.conv_inputs]))
  · exact Or.inl (hg.canMove_newOp hfree hlegal hlast)
  · exact (hg.each n (Pair.mem_nodes_of_rest hrest)).imp_left
      (canMove_rest hg.checked.wellFormed hfree hrest)

/-! ### When the rule declines -/

omit [Element α] in
/-- An operation directly in front of a convolution forms a pair with it. -/
lemma exists_pair (hg : Line t start last g) (hnodes : g.nodes = xs ++ n :: c :: ys)
    (hn : t.CanMove g n) (hc : t.LetsPass c) :
    ∃ p : Pair g, p.op = n ∧ p.conv = c := by
  have hwf := hg.checked.wellFormed
  have hnmem : n ∈ g.nodes := by simp [hnodes]
  have hcmem : c ∈ g.nodes := by simp [hnodes]
  have hop := isElementwise_of_kind t.kind_cases hn.kind
  obtain ⟨attrs, hcop⟩ := hc.exists_attrs
  have hchain := hg.chain
  rw [hnodes, Chain.append_iff] at hchain
  obtain ⟨a, -, hnin, hcin, hrest⟩ := hchain
  obtain ⟨slot, b, hin, hb⟩ := exists_slotted ((hwf.arity n hnmem).length_elementwise hop) hnin
  obtain ⟨constants, hcin, hconstants⟩ := exists_image hwf hcmem hcop hcin
  have ha : a ∈ g.computedInputs n := by
    rw [hnin]
    exact List.mem_singleton_self a
  have hordered := hwf.ordered
  rw [hnodes] at hordered
  obtain ⟨houtput, hunread⟩ := hrest.unread hordered
    (hwf.isInitializer_of_written (result_mem_written hnmem))
  exact ⟨{
    before := xs, op := n, mid := [], conv := c, after := ys, attrs, slot, start := a
    constant := b, between := n.result, constants, last := c.result, nodes_eq := hnodes
    elementwise := hop, op_inputs := hin, op_outputs := (hwf.arity n hnmem).results
    conv_op := hcop, conv_inputs := hcin, conv_outputs := (hwf.arity c hcmem).results
    start_computed := (mem_computedInputs_iff.1 ha).2, constant_known := hb
    constants_known := hconstants, keeps_shape := hn.shape a ha
    not_output := by simpa [hg.outputs] using houtput, unread := hunread }, rfl, rfl⟩

/-- The pair is legal. -/
lemma exists_legal (hg : g.IsChecked) (p : Pair g) (hn : t.CanMove g p.op)
    (hc : t.LetsPass p.conv) : ∃ value, p.Legal value := by
  obtain ⟨x, _, _, out, -, hconst, hjoin, hw, hout, -⟩ := p.exists_shapes hg
  obtain ⟨weights, outChannels, perGroup, hweights, hfits, -⟩ :=
    (hg.wellFormed.conv _ p.conv_mem_nodes p.attrs p.conv_op).constants
  obtain ⟨v, hv, c, hc', hpush⟩ := hn.constant
  obtain rfl := p.eq_constant hv (isInitializer_iff_exists.2 ⟨c, hc'⟩)
  obtain rfl := Option.some.inj (hconst.symm.trans (hg.shape_of_initializer hc'))
  obtain rfl := Option.some.inj (hw.symm.trans (hg.shape_of_initializer hweights))
  cases t with
  | addPastConv =>
    obtain ⟨attrs, hop, hpad⟩ := hc
    obtain rfl : p.attrs = attrs := by simpa [p.conv_op] using hop
    have hstretches : c.size = 1 ∨ c.shape = [1, perGroup * p.attrs.group, 1, 1] := by
      rcases hpush with hone | ⟨-, channels, hshape⟩
      · exact Or.inl hone
      · exact Conv.stretches_of_broadcast hfits hout hshape hjoin
    obtain ⟨value, hfolded, -⟩ := Conv.exists_foldThroughKernel hfits hstretches
    exact ⟨value, .add (eq_add_of_kind hn.kind) hpad hc' hweights hfolded⟩
  | mulPastConv =>
    have hsingle : c.size = 1 := hpush.resolve_right fun h => nomatch h.1
    exact ⟨c, .mul (eq_mul_of_kind hn.kind) hc.2 hc' hsingle⟩

/-- When the rule declines, no operation stands directly in front of a convolution. -/
lemma not_adjacent (hg : Line t start last g) (hnone : t.change g = none)
    (hnodes : g.nodes = xs ++ n :: c :: ys) (hc : c.op.kind = .conv) : n.op.kind = .conv := by
  by_contra hn
  have hmove : t.CanMove g n := hg.canMove (by simp [hnodes]) hn
  have hpass : t.LetsPass c := hg.letsPass (by simp [hnodes]) hc
  obtain ⟨p, rfl, rfl⟩ := hg.exists_pair hnodes hmove hpass
  obtain ⟨value, hlegal⟩ := exists_legal hg.checked p hmove hpass
  exact (RuleChoice.change_eq_none_iff hg.checked).1 hnone p value hmove.kind hlegal

/-- **When the rule declines, all convolutions stand in front of all operations.** -/
theorem exists_split (hg : Line t start last g) (hnone : t.change g = none) :
    ∃ convs ops, g.nodes = convs ++ ops ∧ (∀ n ∈ convs, n.op.kind = .conv) ∧
      ∀ n ∈ ops, n.op.kind ≠ .conv := by
  have hchain : g.nodes.IsChain fun n c => c.op.kind = .conv → n.op.kind = .conv :=
    List.isChain_iff_forall_rel_of_append_cons_cons.2 fun _ _ _ _ hnodes =>
      hg.not_adjacent hnone hnodes
  have htrans : IsTrans Node fun n c => c.op.kind = .conv → n.op.kind = .conv :=
    ⟨fun _ _ _ hab hbc hc => hab (hbc hc)⟩
  exact exists_append_of_pairwise (List.isChain_iff_pairwise.1 hchain)

end Line

end Graph

end ConvFlow
