/-
# Exchanging two nodes

An exchange reuses the names of values: afterwards `between` names what the convolution computes,
and `last` names, as before, what reaches the rest of the graph.  This file proves that the
exchanged graph is well formed (`wellFormed_exchange`) and that a table that solves the equations
of the graph, changed at `between` and at the name of the constant, solves the equations of the
exchanged graph as soon as it solves those of the two nodes (`solves_exchange`).
-/
import ConvFlow.Proofs.Rules.Site

namespace ConvFlow.Graph.Pair

variable {α β ε : Type} {g : Graph α} {p : Pair g} {name : String} {value : Tensor α}

lemma op_kind_ne_conv (p : Pair g) : p.op.op.kind ≠ .conv := by
  rcases p.elementwise with hop | hop <;> simp [hop, Op.kind]

lemma conv_kind (p : Pair g) : p.conv.op.kind = .conv := by
  rw [p.conv_op]
  rfl

/-! ## The order of the nodes -/

@[simp] lemma op_result (p : Pair g) : p.op.result = p.between := by
  rw [Node.result, p.op_outputs]
  rfl

@[simp] lemma conv_result (p : Pair g) : p.conv.result = p.last := by
  rw [Node.result, p.conv_outputs]
  rfl

@[simp] lemma newConv_result (p : Pair g) : p.newConv.result = p.between := rfl

@[simp] lemma newOp_result (p : Pair g) (name : String) : (p.newOp name).result = p.last := rfl

lemma nodes_exchange : (p.exchange name value).nodes =
    p.before ++ (p.mid ++ p.newConv :: p.newOp name :: p.after) := rfl

lemma getElem?_initializers_exchange (v : String) : (p.exchange name value).initializers[v]? =
    if name = v then some value else g.initializers[v]? :=
  NameMap.getElem?_insert g.initializers name v value

/-- What the order of the nodes says about the parts of the list. -/
structure Parts (p : Pair g) (known : Set String) : Prop where
  before : Ordered known p.before
  op_reads : ∀ v ∈ p.op.inputs, v ∈ known ∪ written p.before
  between_new : p.between ∉ known ∪ written p.before
  mid : Ordered (insert p.between (known ∪ written p.before)) p.mid
  last_new : p.last ∉ insert p.between (known ∪ written p.before) ∪ written p.mid
  after : Ordered (insert p.last (insert p.between (known ∪ written p.before) ∪ written p.mid))
    p.after

lemma parts (p : Pair g) (hg : g.WellFormed) : p.Parts {v | v ∈ g.sources} := by
  have hordered := hg.ordered
  rw [p.nodes_eq, Ordered.append_iff] at hordered
  obtain ⟨hbefore, hop, hbetween, hrest⟩ := hordered
  rw [Ordered.append_iff] at hrest
  obtain ⟨hmid, -, hlast, hafter⟩ := hrest
  rw [p.op_result] at hbetween hmid hlast hafter
  rw [p.conv_result] at hlast hafter
  exact ⟨hbefore, hop, hbetween, hmid, hlast, hafter⟩

lemma written_nodes (p : Pair g) : written g.nodes =
    written p.before ∪ insert p.between (written p.mid ∪ insert p.last (written p.after)) := by
  rw [p.nodes_eq]
  simp

/-- An exchange writes the same names as before. -/
lemma written_exchange (p : Pair g) (name : String) (value : Tensor α) :
    written (p.exchange name value).nodes = written g.nodes := by
  rw [p.written_nodes, nodes_exchange]
  ext v
  simp only [written_append, written_cons, newConv_result, newOp_result, Set.mem_union,
    Set.mem_insert_iff]
  tauto

lemma between_mem_written (p : Pair g) : p.between ∈ written g.nodes := by
  simp [p.written_nodes]

lemma last_mem_written (p : Pair g) : p.last ∈ written g.nodes := by
  simp [p.written_nodes]

lemma Free.notMem_written (h : p.Free name value) (hg : g.WellFormed) :
    name ∉ written g.nodes := by
  rcases h.known with hconst | ⟨-, hnew⟩
  · exact hg.source_notMem_written (mem_sources_iff.2 (Or.inr (isInitializer_iff.1 hconst)))
  · exact hnew

lemma Free.ne_between (h : p.Free name value) (hg : g.WellFormed) : name ≠ p.between :=
  fun heq => h.notMem_written hg (heq ▸ p.between_mem_written)

lemma Free.ne_last (h : p.Free name value) (hg : g.WellFormed) : name ≠ p.last :=
  fun heq => h.notMem_written hg (heq ▸ p.last_mem_written)

lemma start_known (p : Pair g) (hg : g.WellFormed) :
    p.start ∈ {v | v ∈ g.sources} ∪ written p.before :=
  (p.parts hg).op_reads _ p.start_mem

lemma start_ne_between (p : Pair g) (hg : g.WellFormed) : p.start ≠ p.between :=
  fun heq => (p.parts hg).between_new (heq ▸ p.start_known hg)

lemma last_ne_between (p : Pair g) (hg : g.WellFormed) : p.last ≠ p.between := fun heq =>
  (p.parts hg).last_new (Or.inl (heq ▸ Set.mem_insert _ _))

lemma result_ne_between (hg : g.WellFormed) {n : Node} (h : n ∈ p.before ++ (p.mid ++ p.after)) :
    n.result ≠ p.between := by
  obtain ⟨-, -, hbetween, hmid, -, hafter⟩ := p.parts hg
  have hnot : p.between ∉ written (p.before ++ (p.mid ++ p.after)) := by
    rw [written_append, written_append]
    rintro (hin | hin | hin)
    · exact hbetween (Or.inr hin)
    · exact hmid.notMem_written (Set.mem_insert _ _) hin
    · refine hafter.notMem_written ?_ hin
      exact Set.mem_insert_of_mem _ (Or.inl (Set.mem_insert _ _))
  exact fun heq => hnot (heq ▸ result_mem_written h)

/-- The new constant does not stand under the name of the computed operand. -/
lemma Free.ne_start (h : p.Free name value) (hg : g.WellFormed) : name ≠ p.start := by
  rintro rfl
  rcases h.known with hconst | ⟨hsource, hnew⟩
  · rw [p.start_computed] at hconst
    simp at hconst
  · rcases p.start_known hg with hin | hin
    · exact hsource hin
    · refine hnew ?_
      rw [p.written_nodes]
      exact Or.inl hin

lemma mem_sources_exchange {v : String} :
    v ∈ (p.exchange name value).sources ↔ v = name ∨ v ∈ g.sources :=
  mem_sources_insert

lemma sources_exchange : {v | v ∈ (p.exchange name value).sources} =
    insert name {v | v ∈ g.sources} := by
  ext v
  exact mem_sources_exchange

/-- Over the sources with the new constant, the nodes before the operation stay as they are. -/
lemma ordered_before (hg : g.WellFormed) (h : p.Free name value) :
    Ordered (insert name {v | v ∈ g.sources}) p.before := by
  obtain ⟨hbefore, -⟩ := p.parts hg
  have hname := h.notMem_written hg
  rw [p.written_nodes] at hname
  refine hbefore.of_reads (fun _ _ v _ hv => Set.mem_insert_of_mem _ hv) fun v hv => ?_
  rcases Set.mem_insert_iff.1 hv with rfl | hv
  · exact fun hmem => hname (Or.inl hmem)
  · exact hbefore.notMem_written hv

/-- The nodes in the middle can do without the operation, whose result they do not read. -/
lemma ordered_mid (hg : g.WellFormed) (h : p.Free name value) :
    Ordered (insert name {v | v ∈ g.sources} ∪ written p.before) p.mid := by
  have hmid := (p.parts hg).mid
  have hname := h.notMem_written hg
  rw [p.written_nodes] at hname
  refine hmid.of_reads (fun n hn v hv hknown => ?_) fun v hv => ?_
  · have hne : v ≠ p.between := by
      rintro rfl
      exact p.unread n (by simp [hn]) hv
    rcases Set.mem_insert_iff.1 hknown with heq | hknown | hknown
    · exact absurd heq hne
    · exact Or.inl (Set.mem_insert_of_mem _ hknown)
    · exact Or.inr hknown
  · by_cases heq : v = name
    · rw [heq]
      exact fun hmem => hname (Or.inr (Or.inr (Or.inl hmem)))
    · refine hmid.notMem_written (Set.mem_insert_of_mem _ ?_)
      exact hv.imp_left fun hin => (Set.mem_insert_iff.1 hin).resolve_left heq

/-- The nodes after the convolution know the same names as before, and the new constant. -/
lemma ordered_after (hg : g.WellFormed) (h : p.Free name value) :
    Ordered (insert p.last (insert p.between
      (insert name {v | v ∈ g.sources} ∪ written p.before ∪ written p.mid))) p.after := by
  have hafter := (p.parts hg).after
  have hname := h.notMem_written hg
  rw [p.written_nodes] at hname
  refine hafter.of_reads (fun n hn v hv hknown => ?_) fun v hv => ?_
  · simp only [Set.mem_union, Set.mem_insert_iff] at hknown ⊢
    tauto
  · by_cases heq : v = name
    · rw [heq]
      exact fun hmem => hname (Or.inr (Or.inr (Or.inr (Or.inr hmem))))
    · refine hafter.notMem_written ?_
      simp only [Set.mem_union, Set.mem_insert_iff] at hv ⊢
      tauto

/-- Everything that the new convolution reads is known after the nodes in the middle. -/
lemma known_of_newConv (hg : g.WellFormed) {v : String} (hv : v ∈ p.newConv.inputs) :
    v ∈ insert name {v | v ∈ g.sources} ∪ written p.before ∪ written p.mid := by
  rcases List.mem_cons.1 hv with rfl | hv
  · exact Or.inl ((p.start_known hg).imp_left (Set.mem_insert_of_mem _))
  · have hsource : v ∈ g.sources :=
      mem_sources_iff.2 (Or.inr (isInitializer_iff.1 (p.constants_known v hv)))
    exact Or.inl (Or.inl (Set.mem_insert_of_mem _ hsource))

lemma mem_newOp_inputs {v : String} (hv : v ∈ (p.newOp name).inputs) :
    v = p.between ∨ v = name := by
  rw [newOp, slotted] at hv
  split at hv
  · simpa using hv
  · simpa [or_comm] using hv

/-- The nodes of the exchange are ordered. -/
lemma ordered_exchange (hg : g.WellFormed) (h : p.Free name value) :
    Ordered {v | v ∈ (p.exchange name value).sources} (p.exchange name value).nodes := by
  have hparts := p.parts hg
  have hne := h.ne_between hg
  have hnelast := h.ne_last hg
  have hmid := hparts.mid.notMem_written (Set.mem_insert _ _)
  have hbetween := hparts.between_new
  have hlast := hparts.last_new
  simp only [Set.mem_union, Set.mem_insert_iff, not_or] at hbetween hlast
  rw [sources_exchange]
  refine Ordered.append_iff.2 ⟨ordered_before hg h, Ordered.append_iff.2
    ⟨ordered_mid hg h, fun v hv => known_of_newConv hg hv, ?_, fun v hv => ?_, ?_,
      ordered_after hg h⟩⟩
  · rw [newConv_result]
    simp only [Set.mem_union, Set.mem_insert_iff, not_or]
    exact ⟨⟨⟨hne.symm, hbetween.1⟩, hbetween.2⟩, hmid⟩
  · rcases mem_newOp_inputs hv with rfl | rfl
    · exact Set.mem_insert _ _
    · exact Set.mem_insert_of_mem _ (Or.inl (Or.inl (Set.mem_insert _ _)))
  · rw [newOp_result, newConv_result]
    simp only [Set.mem_union, Set.mem_insert_iff, not_or]
    exact ⟨hlast.1.1, ⟨⟨hnelast.symm, hlast.1.2.1⟩, hlast.1.2.2⟩, hlast.2⟩

/-! ## Well-formedness -/

/-- Every node but the operation reads the tensors that it read before. -/
lemma Free.initializers_of_read (h : p.Free name value) {n : Node}
    (hn : n ∈ p.before ++ (p.mid ++ p.conv :: p.after)) {v : String} (hv : v ∈ n.inputs) :
    (p.exchange name value).initializers[v]? = g.initializers[v]? := by
  rw [getElem?_initializers_exchange]
  split
  · rename_i heq
    subst heq
    exact (h.unread n hn hv).symm
  · rfl

lemma conv_mem (p : Pair g) : p.conv ∈ p.before ++ (p.mid ++ p.conv :: p.after) := by
  simp

/-- The nodes of the exchange are the two new ones and nodes of the graph. -/
lemma mem_nodes_exchange {n : Node} (h : n ∈ (p.exchange name value).nodes) :
    n = p.newConv ∨ n = p.newOp name ∨ n ∈ p.before ++ (p.mid ++ p.after) := by
  rw [nodes_exchange] at h
  simp only [List.mem_append, List.mem_cons] at h ⊢
  tauto

lemma mem_nodes_of_rest {n : Node} (h : n ∈ p.before ++ (p.mid ++ p.after)) : n ∈ g.nodes := by
  rw [p.nodes_eq]
  simp only [List.mem_append, List.mem_cons] at h ⊢
  tauto

lemma mem_readers_of_rest {n : Node} (h : n ∈ p.before ++ (p.mid ++ p.after)) :
    n ∈ p.before ++ (p.mid ++ p.conv :: p.after) := by
  simp only [List.mem_append, List.mem_cons] at h ⊢
  tauto

lemma op_mem_nodes (p : Pair g) : p.op ∈ g.nodes := by
  simp [p.nodes_eq]

lemma conv_mem_nodes (p : Pair g) : p.conv ∈ g.nodes := by
  simp [p.nodes_eq]

lemma fitsArity_newConv (hg : g.WellFormed) : p.newConv.FitsArity := by
  have hoperands := (hg.arity p.conv p.conv_mem_nodes).operands
  rw [p.conv_inputs] at hoperands
  exact ⟨hoperands, rfl⟩

lemma fitsArity_newOp : (p.newOp name).FitsArity := by
  refine ⟨?_, rfl⟩
  have hlen : (slotted p.slot p.between name).length = 2 := by
    rw [slotted]
    split <;> rfl
  rcases p.elementwise with hop | hop <;> simp [newOp, hop, hlen, Op.kind, takesOperands]

lemma newConv_operand (p : Pair g) {i : Nat} (hi : 1 ≤ i) :
    p.newConv.operand i = p.conv.operand i := by
  obtain ⟨k, rfl⟩ := Nat.exists_eq_add_of_le' hi
  simp [Node.operand, newConv, p.conv_inputs]

/-- **An exchange keeps a graph well formed.** -/
theorem wellFormed_exchange (hg : g.WellFormed) (h : p.Free name value) :
    (p.exchange name value).WellFormed := by
  refine ⟨ordered_exchange hg h, fun n hn => ?_, fun n hn attrs hop => ?_, fun v hv => ?_⟩
  · rcases mem_nodes_exchange hn with rfl | rfl | hrest
    · exact fitsArity_newConv hg
    · exact fitsArity_newOp
    · exact hg.arity n (mem_nodes_of_rest hrest)
  · rcases mem_nodes_exchange hn with rfl | rfl | hrest
    · refine FitsConv.congr (hg.conv _ p.conv_mem_nodes attrs hop)
        (hg.arity _ p.conv_mem_nodes) hop (by simp [newConv, p.conv_inputs]) fun i hi hlt => ?_
      rw [newConv_operand p hi]
      exact h.initializers_of_read p.conv_mem (Node.operand_mem hlt)
    · rcases p.elementwise with hop' | hop' <;> simp [newOp, hop'] at hop
    · have hmem := mem_nodes_of_rest hrest
      exact FitsConv.congr (hg.conv n hmem attrs hop) (hg.arity n hmem) hop rfl fun i _ hlt =>
        h.initializers_of_read (mem_readers_of_rest hrest) (Node.operand_mem hlt)
  · rw [written_exchange, mem_sources_exchange]
    rcases hg.outputs v hv with hsource | hwritten
    · exact Or.inl (Or.inr hsource)
    · exact Or.inr hwritten

/-! ## Tables -/

/-- The table after the exchange: `b` stands for the new constant and `z` for what the convolution
computes. -/
def table (p : Pair g) (m : NameMap β) (name : String) (b z : β) : NameMap β :=
  (m.insert name b).insert p.between z

section Table

variable {m start start' : NameMap β} {b y z : β} {f : NameMap β → Node → Except ε β}

lemma getElem?_table_between : (p.table m name b z)[p.between]? = some z :=
  NameMap.getElem?_insert_same _ _ _

lemma getElem?_table_name (hne : name ≠ p.between) : (p.table m name b z)[name]? = some b := by
  rw [table, NameMap.getElem?_insert_of_ne hne.symm, NameMap.getElem?_insert_same]

lemma getElem?_table_of_ne {v : String} (hbetween : v ≠ p.between) (hname : v ≠ name) :
    (p.table m name b z)[v]? = m[v]? := by
  rw [table, NameMap.getElem?_insert_of_ne hbetween.symm,
    NameMap.getElem?_insert_of_ne hname.symm]

/-- A name that held the new constant before still holds it. -/
lemma getElem?_table {v : String} (hbetween : v ≠ p.between)
    (hname : v = name → m[v]? = some b) : (p.table m name b z)[v]? = m[v]? := by
  by_cases heq : v = name
  · rw [hname heq, heq, getElem?_table_name (heq ▸ hbetween)]
  · exact getElem?_table_of_ne hbetween heq

/-- **A solution stays a solution.**  Only the equations of the two nodes are left to be checked. -/
theorem solves_exchange (hg : g.WellFormed) (h : p.Free name value) (hf : ReadsOperands f)
    (hm : Solves f start g.nodes m)
    (hstart : ∀ v : String, start'[v]? = if name = v then some b else start[v]?)
    (hread : g.initializers[name]? = some value → m[name]? = some b)
    (hconv : f (p.table m name b z) p.newConv = .ok z)
    (hop : f (p.table m name b z) (p.newOp name) = .ok y) (hlast : m[p.last]? = some y) :
    Solves f start' (p.exchange name value).nodes (p.table m name b z) := by
  have hbetween := h.ne_between hg
  refine ⟨fun v hv => ?_, fun n hn => ?_⟩
  · rw [written_exchange] at hv
    have hne : v ≠ p.between := fun heq => hv (heq ▸ p.between_mem_written)
    rw [hstart]
    split
    · rename_i heq
      rw [← heq, getElem?_table_name hbetween]
    · rename_i heq
      rw [getElem?_table_of_ne hne (Ne.symm heq), hm.frame v hv]
  · rcases mem_nodes_exchange hn with rfl | rfl | hrest
    · exact ⟨z, hconv, getElem?_table_between⟩
    · refine ⟨y, hop, ?_⟩
      rw [newOp_result, getElem?_table_of_ne (p.last_ne_between hg) (h.ne_last hg).symm, hlast]
    -- Any other node reads what it read before: not `between`, and the constant only if it is kept.
    · obtain ⟨c, hc, hresult⟩ := hm.entry n (mem_nodes_of_rest hrest)
      refine ⟨c, ?_, ?_⟩
      · rw [← hc]
        refine hf _ _ n (hg.arity n (mem_nodes_of_rest hrest)) fun v hv => ?_
        refine getElem?_table (fun heq => p.unread n hrest (heq ▸ hv)) fun heq => ?_
        subst heq
        exact hread (h.unread n (mem_readers_of_rest hrest) hv)
      · have hne : n.result ≠ name := fun heq => h.notMem_written hg
          (heq ▸ result_mem_written (mem_nodes_of_rest hrest))
        rw [getElem?_table_of_ne (result_ne_between hg hrest) hne, hresult]

end Table

end ConvFlow.Graph.Pair
