/-
# Nothing to move is overlooked

Whatever a rule moves is a legal pair of an operation and a convolution.  Conversely every legal
pair is found: `Pair.exists_site` says that the search recognizes a pair at the position of its
operation, and `exists_moveAt` that the rule then moves it.  So a rule declines exactly if the graph
has no legal pair (`change_eq_none_iff`).
-/
import ConvFlow.Proofs.Rules.Addend
import ConvFlow.Proofs.Rules.Tracing

namespace ConvFlow

open Outcome

namespace Graph.Pair

variable {α : Type} {g : Graph α}

/-! ## How a pair is recognized -/

lemma getElem?_op (p : Pair g) : g.nodes[p.before.length]? = some p.op := by
  simp [p.nodes_eq]

lemma getElem?_conv (p : Pair g) :
    g.nodes[p.before.length + p.mid.length + 1]? = some p.conv := by
  rw [p.nodes_eq, Nat.add_assoc, List.getElem?_append_right (Nat.le_add_right _ _)]
  simp

/-- One of the operands is computed and the other one is not. -/
lemma isJoin_op (p : Pair g) : g.isJoin p.op = false := by
  have hcount : p.op.inputs.countP (fun v => !g.isInitializer v) = 1 := by
    rw [p.op_inputs, slotted]
    split <;> simp [p.start_computed, p.constant_known]
  rw [isJoin, hcount]
  rfl

/-- Which operand is computed, as the search counts them. -/
lemma dataSlot?_op (p : Pair g) : ∃ slot, g.dataSlot? p.op = some slot ∧
    p.op.operand slot = p.start ∧ p.op.operand (1 - slot) = p.constant := by
  by_cases hslot : p.slot = 0
  · have hin : p.op.inputs = [p.start, p.constant] := by rw [p.op_inputs, slotted, if_pos hslot]
    refine ⟨0, ?_, by simp [Node.operand, hin], by simp [Node.operand, hin]⟩
    simp [dataSlot?, Node.operand, hin, p.start_computed, p.constant_known]
  · have hin : p.op.inputs = [p.constant, p.start] := by rw [p.op_inputs, slotted, if_neg hslot]
    refine ⟨1, ?_, by simp [Node.operand, hin], by simp [Node.operand, hin]⟩
    simp [dataSlot?, Node.operand, hin, p.start_computed, p.constant_known]

/-- Only the convolution reads the result of the operation. -/
lemma consumers_between (p : Pair g) (hg : g.WellFormed) :
    g.consumers p.between = [p.before.length + p.mid.length + 1] := by
  have hop : ¬p.op.inputs.contains p.between := by
    rw [List.contains_iff_mem]
    intro hmem
    exact (p.parts hg).between_new ((p.parts hg).op_reads _ hmem)
  have hconv : p.conv.inputs.contains p.between := by
    rw [p.conv_inputs, List.contains_cons, beq_self_eq_true, Bool.true_or]
  have hzero (l : List Node) (hl : l ⊆ p.before ++ (p.mid ++ p.after)) :
      l.countP (fun n => n.inputs.contains p.between) = 0 := by
    refine List.countP_eq_zero.2 fun n hn => ?_
    rw [List.contains_iff_mem]
    exact p.unread n (hl hn)
  have hone : (g.consumers p.between).length = 1 := by
    rw [consumers_length, p.nodes_eq, List.countP_append, List.countP_cons, List.countP_append,
      List.countP_cons, hzero p.before (by simp), hzero p.mid (by simp), hzero p.after (by simp),
      if_neg hop, if_pos hconv]
  have hmem : p.before.length + p.mid.length + 1 ∈ g.consumers p.between :=
    mem_consumers_iff.2 ⟨p.conv, p.getElem?_conv, List.contains_iff_mem.1 hconv⟩
  obtain ⟨i, hi⟩ := List.length_eq_one_iff.1 hone
  rw [hi, List.mem_singleton] at hmem
  rw [hi, hmem]

lemma isPlainConv_conv (p : Pair g) : g.isPlainConv p.conv p.between = true := by
  simp only [isPlainConv, p.conv_op, Op.kind, Node.operand, p.conv_inputs, List.getD_cons_zero,
    beq_self_eq_true, Bool.true_and, List.drop_succ_cons, List.drop_zero, List.all_eq_true]
  exact p.constants_known

/-- **Every pair is found at the position of its operation.** -/
theorem exists_site (p : Pair g) (hg : g.IsChecked) :
    ∃ site, g.site? p.op.op.kind p.before.length = some site ∧
      site.constant = p.constant ∧ g.nodes[site.conv]? = some p.conv := by
  obtain ⟨slot, hslot, hstart, hconstant⟩ := p.dataSlot?_op
  obtain ⟨x, -, -, -, hx, -⟩ := p.exists_shapes hg
  have hconsumers := p.consumers_between hg.wellFormed
  have hfork : g.isFork p.op = false := by simp [isFork, p.op_outputs, hconsumers]
  have hkeeps : g.keepsShape p.op slot = true := by
    simp [keepsShape, hstart, p.op_result, p.keeps_shape, hx]
  have houtput : g.isOutput p.between = false := by
    simpa [isOutput] using p.not_output
  refine ⟨⟨p.before.length, p.before.length + p.mid.length + 1, slot, p.constant⟩, ?_, rfl,
    p.getElem?_conv⟩
  simp [site?, guard, consumer?, p.getElem?_op, p.getElem?_conv, p.isJoin_op, hfork, hslot, hkeeps,
    houtput, hconsumers, p.isPlainConv_conv, hconstant]

end Graph.Pair

namespace RuleChoice

open ConvFlow.Graph

variable {α : Type} [Element α] {t : RuleChoice} {g : Graph α} {value : Tensor α}

/-- A rule moves every legal pair of an operation of its kind. -/
lemma exists_moveAt (hg : g.IsChecked) (p : Pair g) (hkind : p.op.op.kind = t.kind)
    (hlegal : p.Legal value) : ∃ h, t.moveAt g p.before.length = some h := by
  obtain ⟨site, hsite, hconstant, hconv⟩ := p.exists_site hg
  cases hlegal with
  | add hop hpad haddend hweights hfolded =>
    rw [hop] at hkind hsite
    obtain rfl := eq_addPastConv_of_kind hkind.symm
    rw [← hconstant] at haddend
    refine ⟨(Rule.withConstant g site (Rule.addendName g site) value).moveAlong site, ?_⟩
    rw [Op.kind] at hsite
    simp [moveAt, Rule.addPastConvAt, guard, hsite, hconv, p.conv_op, hpad, haddend, hweights,
      hfolded]
  | mul hop hbias hfactor hsingle =>
    rw [hop] at hkind hsite
    obtain rfl := eq_mulPastConv_of_kind hkind.symm
    rw [← hconstant] at hfactor
    refine ⟨g.moveAlong site, ?_⟩
    rw [Op.kind] at hsite
    simp [moveAt, Rule.mulPastConvAt, guard, hsite, hconv, hbias, hfactor, hsingle]

/-- **A rule declines exactly if the graph has no legal pair.** -/
theorem change_eq_none_iff (hg : g.IsChecked) : t.change g = none ↔
    ∀ (p : Pair g) (value : Tensor α), p.op.op.kind = t.kind → ¬p.Legal value := by
  rw [change_eq_findSome?, List.findSome?_eq_none_iff]
  constructor
  · intro hnone p value hkind hlegal
    obtain ⟨h, hmove⟩ := exists_moveAt hg p hkind hlegal
    have hlt : p.before.length < g.nodes.length := by
      simp [p.nodes_eq]
    have hno := hnone _ (List.mem_range.2 hlt)
    rw [hmove] at hno
    cases hno
  · intro hnone i _
    by_contra hsome
    obtain ⟨h, hmove⟩ := Option.ne_none_iff_exists'.1 hsome
    obtain ⟨p, -, value, hkind, -, hlegal, -⟩ := movesOf_of_moveAt hg hmove
    exact hnone p value hkind hlegal

end RuleChoice

end ConvFlow
