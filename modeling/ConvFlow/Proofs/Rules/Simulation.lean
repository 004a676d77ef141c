/-
# Runs before and after a move

In exact arithmetic a move does not change what a graph computes.  The table that a run of the
graph has filled, changed at the value between the two nodes and at the constant, is the table
that a run of the moved graph fills (`Pair.solves_run`): the only equations that have to be checked
are those of the two nodes, and there the constant commutes with the convolution.
-/
import ConvFlow.Proofs.Execution.Safety
import ConvFlow.Proofs.Rules.Moves

namespace ConvFlow

open Outcome Execution

variable {α : Type} [Element α]

namespace Execution

variable {ctx : Context α} {n : Node} {t : Tensor α} {slot : Nat} {a b : String}

lemma combine_comm [Element.IsExact α] (op : Op) (x y : α) : combine op x y = combine op y x := by
  cases op with
  | mul => exact Element.IsExact.mul_comm x y
  | _ => exact Element.IsExact.add_comm x y

/-- The result of an element-wise node, whichever slot its operands are in. -/
lemma runOp_slotted [Element.IsExact α] (hop : n.IsElementwise)
    (hin : n.inputs = Graph.slotted slot a b) : runOp ctx n = .ok t ↔
      ∃ x c, ctx[a]? = some x ∧ ctx[b]? = some c ∧
        Tensor.zipBroadcast (combine n.op) x c = some t := by
  rw [runOp_elementwise hop]
  by_cases hslot : slot = 0
  · simp [Node.operand, hin, Graph.slotted, hslot]
  · simp only [Node.operand, hin, Graph.slotted, if_neg hslot, List.getD_cons_zero,
      List.getD_cons_succ]
    constructor
    · rintro ⟨c, x, hc, hx, ht⟩
      exact ⟨x, c, hx, hc, Tensor.zipBroadcast_comm (combine_comm n.op) c x ▸ ht⟩
    · rintro ⟨x, c, hx, hc, ht⟩
      exact ⟨c, x, hc, hx, Tensor.zipBroadcast_comm (combine_comm n.op) x c ▸ ht⟩

end Execution

namespace Graph

variable {g h : Graph α} {given : NameMap (Tensor α)} {start : Context α}

namespace Pair

variable {p : Pair g} {name : String} {value : Tensor α}

/-- The constant of a legal pair commutes with the convolution. -/
lemma Legal.commutes [Element.IsExact α] (hlegal : p.Legal value) {x t w y c : Tensor α}
    {bias : Option (Tensor α)} {outChannels perGroup : Nat}
    (hc : g.initializers[p.constant]? = some c) (hw : g.initializers[p.conv.operand 1]? = some w)
    (hfits : p.attrs.FitsWeights w.shape outChannels perGroup)
    (hbias : p.conv.inputs.length ≤ 2 → bias = none)
    (ht : Tensor.zipBroadcast (combine p.op.op) x c = some t) (hshape : t.shape = x.shape)
    (hy : Conv.conv2d t w bias p.attrs = .ok y) : ∃ z, Conv.conv2d x w bias p.attrs = .ok z ∧
      Tensor.zipBroadcast (combine p.op.op) z value = some y := by
  cases hlegal with
  | add hop hpad haddend hweights hfolded =>
    obtain rfl := Option.some.inj (haddend.symm.trans hc)
    obtain rfl := Option.some.inj (hweights.symm.trans hw)
    rw [hop] at ht ⊢
    obtain ⟨z, hz, -, hzip⟩ := Conv.conv2d_add hfits hpad hfolded ht hshape hy
    exact ⟨z, hz, hzip⟩
  | mul hop hunbiased hfactor hsingle =>
    obtain rfl := Option.some.inj (hfactor.symm.trans hc)
    obtain rfl := hbias hunbiased
    rw [hop] at ht ⊢
    obtain ⟨z, hz, -, hzip⟩ := Conv.conv2d_mul hfits hsingle ht hshape hy
    exact ⟨z, hz, hzip⟩

omit [Element α] in
/-- The new constant does not stand under the name of an input. -/
lemma Free.isInput_eq_false (hfree : p.Free name value) (hapart : g.SourcesApart) :
    g.isInput name = false := by
  by_contra hinput
  rw [Bool.not_eq_false] at hinput
  rcases hfree.known with hconst | ⟨hsource, -⟩
  · obtain ⟨t, ht⟩ := isInitializer_iff_exists.1 hconst
    simp [hapart.initializer_eq_none hinput] at ht
  · exact hsource (mem_sources_iff.2 (Or.inl hinput))

omit [Element α] in
lemma sourcesApart_exchange (hfree : p.Free name value) (hapart : g.SourcesApart) :
    (p.exchange name value).SourcesApart := by
  intro d hd
  have hinput : g.isInput d.name = true := List.any_eq_true.2 ⟨d, hd, by simp⟩
  rw [isInitializer_eq_false_iff, getElem?_initializers_exchange, if_neg,
    hapart.initializer_eq_none hinput]
  rintro rfl
  simp [hfree.isInput_eq_false hapart] at hinput

omit [Element α] in
lemma isStart_exchange (hfree : p.Free name value) (hapart : g.SourcesApart)
    (hstart : IsStart g given start) :
    IsStart (p.exchange name value) given (start.insert name value) := by
  intro v
  have hinput : (p.exchange name value).isInput v = g.isInput v := rfl
  rw [NameMap.getElem?_insert, getElem?_initializers_exchange, hinput]
  by_cases heq : name = v
  · subst heq
    simp [hfree.isInput_eq_false hapart]
  · rw [if_neg heq, if_neg heq, hstart v]

/-- The tensors around a pair: the operation turns `x` into `t` without changing its shape, and
the convolution turns `t` into `y`. -/
lemma exists_tensors [Element.IsExact α] (p : Pair g) {m : Context α}
    (hm : Solves runOp start g.nodes m) (htyped : Typed g g.valueShapes m) :
    ∃ (x c t w y : Tensor α) (bias : Option (Tensor α)), m[p.start]? = some x ∧
      m[p.constant]? = some c ∧ Tensor.zipBroadcast (combine p.op.op) x c = some t ∧
      t.shape = x.shape ∧ readBias m p.conv = .ok bias ∧ m[p.conv.operand 1]? = some w ∧
      Conv.conv2d t w bias p.attrs = .ok y ∧ m[p.last]? = some y := by
  obtain ⟨t, hop, hbetween⟩ := hm.entry p.op p.op_mem_nodes
  obtain ⟨y, hconv, hlast⟩ := hm.entry p.conv p.conv_mem_nodes
  obtain ⟨x, c, hx, hc, hzip⟩ := (runOp_slotted p.elementwise p.op_inputs).1 hop
  obtain ⟨bias, t', w, hbias, ht', hw, hy⟩ := (runOp_conv p.conv_op).1 hconv
  rw [p.op_result] at hbetween
  rw [p.conv_result] at hlast
  rw [p.conv_operand_zero, hbetween] at ht'
  obtain rfl := Option.some.inj ht'
  have hshape := p.keeps_shape
  rw [htyped.shape_of_entry hbetween, htyped.shape_of_entry hx] at hshape
  exact ⟨x, c, t, w, y, bias, hx, hc, hzip, Option.some.inj hshape, hbias, hw, hy, hlast⟩

/-- The new convolution reads `x`, and otherwise what the old one read. -/
lemma runOp_newConv {m : Context α} (hg : g.WellFormed) (hfree : p.Free name value)
    (hread : g.initializers[name]? = some value → m[name]? = some value) {x w y z : Tensor α}
    {bias : Option (Tensor α)} (hx : m[p.start]? = some x) (hw : m[p.conv.operand 1]? = some w)
    (hbias : readBias m p.conv = .ok bias) (hy : Conv.conv2d x w bias p.attrs = .ok y) :
    runOp (p.table m name value z) p.newConv = .ok y := by
  have hlen := (hg.arity _ p.conv_mem_nodes).length_conv p.conv_op
  have hnewlen : p.newConv.inputs.length = p.conv.inputs.length := by
    simp [newConv, p.conv_inputs]
  rw [readBias_eq_ok_iff] at hbias
  refine (runOp_conv (n := p.newConv) p.conv_op).2 ⟨bias, x, w, ?_, ?_, ?_, hy⟩
  · rw [readBias_eq_ok_iff, hnewlen]
    refine ⟨fun hthree => ?_, hbias.2⟩
    rw [table_conv_operand hg hfree hread (by omega) hthree]
    exact hbias.1 hthree
  · rw [newConv_operand_zero, getElem?_table_of_ne (p.start_ne_between hg)
      (hfree.ne_start hg).symm, hx]
  · rw [table_conv_operand hg hfree hread (by omega) (by omega), hw]

/-- **The table of a run, changed at two names, is the table of the run after the move.** -/
theorem solves_run [Element.IsExact α] (hg : g.IsChecked) (hfree : p.Free name value)
    (hlegal : p.Legal value) {m : Context α} (hm : Solves runOp start g.nodes m)
    (htyped : Typed g g.valueShapes m)
    (hconst : ∀ (v : String) (t : Tensor α), g.initializers[v]? = some t → m[v]? = some t) :
    ∃ z, Solves runOp (start.insert name value) (p.exchange name value).nodes
      (p.table m name value z) := by
  obtain ⟨x, c, t, w, y, bias, hx, hc, hzip, hshape, hbias, hw, hy, hlast⟩ :=
    p.exists_tensors hm htyped
  -- The constant and the weights that the run reads are the ones that the rule has seen.
  obtain ⟨weights, outChannels, perGroup, hweights, hfits, -⟩ :=
    (hg.wellFormed.conv _ p.conv_mem_nodes _ p.conv_op).constants
  obtain rfl : w = weights := Option.some.inj (hw.symm.trans (hconst _ _ hweights))
  obtain ⟨constant, hconstant⟩ := isInitializer_iff_exists.1 p.constant_known
  obtain rfl : c = constant := Option.some.inj (hc.symm.trans (hconst _ _ hconstant))
  obtain ⟨z, hz, hmoved⟩ := hlegal.commutes hconstant hweights hfits
    (readBias_eq_ok_iff.1 hbias).2 hzip hshape hy
  have hread := hconst name value
  refine ⟨z, solves_exchange hg.wellFormed hfree runOp_readsOperands hm
    (fun v => NameMap.getElem?_insert start name v value) hread ?_ ?_ hlast⟩
  · exact runOp_newConv hg.wellFormed hfree hread hx hw hbias hz
  · exact (runOp_slotted (n := p.newOp name) p.elementwise rfl).2 ⟨z, value,
      getElem?_table_between, getElem?_table_name (hfree.ne_between hg.wellFormed), hmoved⟩

end Pair

/-! ## Whole runs -/

/-- The filled table of a checked graph: it solves the equations of the nodes, its entries have
the recorded shapes, and the constants stand under their names. -/
lemma exists_table (hg : g.IsChecked) (hapart : g.SourcesApart)
    (hgiven : Supplies given g.inputs) : ∃ start m, initialContext g given = .ok start ∧
      IsStart g given start ∧ fill runOp start g.nodes = .ok m ∧ Typed g g.valueShapes m ∧
      ∀ (v : String) (t : Tensor α), g.initializers[v]? = some t → m[v]? = some t := by
  obtain ⟨start, hinitial, hstart⟩ := initialContext_of_supplies hgiven
  obtain ⟨m, shapes, hrun, -, htyped, -, hrest⟩ :=
    exists_run hg (typed_start hapart hgiven hstart) (List.append_nil g.nodes).symm
  obtain rfl : shapes = g.valueShapes := by simpa using hrest
  rw [foldlM_runNode] at hrun
  refine ⟨start, m, hinitial, hstart, hrun, htyped, fun v t hv => ?_⟩
  have hinput : g.isInput v = false := by
    by_contra hinput
    rw [Bool.not_eq_false] at hinput
    simp [hapart.initializer_eq_none hinput] at hv
  rw [fill_frame hrun (hg.wellFormed.initializer_notMem_written hv), hstart v, hinput]
  exact hv

/-- **A move keeps the tables of a run** at all outputs that are no constants, and the constants
stand in both tables under their names. -/
theorem Moves.run [Element.IsExact α] (hmoves : Moves g h) (hg : g.IsChecked)
    (hapart : g.SourcesApart) (hgiven : Supplies given g.inputs) :
    ∃ m m' : Context α, g.execute given = deliver g.outputs m ∧
      h.execute given = deliver g.outputs m' ∧
      (∀ v ∈ g.outputs, g.isInitializer v = false → m'[v]? = m[v]?) ∧
      ∀ v, g.isInitializer v = true →
        m[v]? = g.initializers[v]? ∧ m'[v]? = h.initializers[v]? := by
  obtain ⟨p, name, value, hfree, hlegal, rfl⟩ := hmoves
  obtain ⟨start, m, hinitial, hstart, hfill, htyped, hconst⟩ := exists_table hg hapart hgiven
  have hwf := Pair.wellFormed_exchange hg.wellFormed hfree
  have hsolve := (fill_eq_ok_iff runOp_readsOperands hg.wellFormed.arity
    hg.wellFormed.ordered).1 hfill
  obtain ⟨z, hsolve'⟩ := Pair.solves_run hg hfree hlegal hsolve htyped hconst
  have hfill' := (fill_eq_ok_iff runOp_readsOperands hwf.arity hwf.ordered).2 hsolve'
  obtain ⟨start', hinitial', hstart'⟩ :=
    initialContext_of_supplies (g := p.exchange name value) hgiven
  obtain rfl : start' = start.insert name value := Std.ExtTreeMap.ext_getElem? fun v => by
    rw [hstart' v, Pair.isStart_exchange hfree hapart hstart v]
  refine ⟨m, p.table m name value z, execute_of_fill hinitial hfill,
    execute_of_fill hinitial' hfill', fun v hv hcomputed => ?_, fun v hv => ?_⟩
  -- An output under the name of the new constant was a constant before: no fresh name is an output.
  · refine Pair.getElem?_table_of_ne (fun heq => p.not_output (heq ▸ hv)) ?_
    rintro rfl
    rcases hfree.known with hknown | ⟨hsource, hnew⟩
    · simp [hcomputed] at hknown
    · exact (hg.wellFormed.outputs v hv).elim hsource hnew
  · obtain ⟨t, ht⟩ := isInitializer_iff_exists.1 hv
    have hne : v ≠ p.between := fun heq =>
      hg.wellFormed.initializer_notMem_written ht (heq ▸ p.between_mem_written)
    refine ⟨by rw [hconst v t ht, ht], ?_⟩
    rw [Pair.getElem?_initializers_exchange]
    split
    · rename_i heq
      rw [← heq, Pair.getElem?_table_name (heq ▸ hne)]
    · rename_i heq
      rw [Pair.getElem?_table_of_ne hne (Ne.symm heq), hconst v t ht, ht]

end Graph

end ConvFlow
