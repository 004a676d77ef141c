/-
# What a site is

A site is found by positions in the list of nodes.  `Pair` describes the same place without
positions: the list of nodes is split around the operation and the convolution, and both are taken
apart into the names that they read and write.  Every site of a checked graph is such a pair, and
`Graph.moveAlong` turns the graph into `Pair.exchange` (`exists_pair`).

The name under which an exchange stores its constant is `Free`: either it is a constant that
nobody else reads, or one that keeps its tensor, or a name that is not in use
(`Pair.free_freshName`).
-/
import ConvFlow.Proofs.Graph.FreshName
import ConvFlow.Proofs.Graph.Shapes
import ConvFlow.Rules.AddPastConv

namespace ConvFlow.Graph

open Outcome

variable {α : Type} {g : Graph α}

/-! ## Lists of nodes -/

section Lists

variable {β : Type} {l xs ys zs : List β} {a b : β} {i j : Nat}

lemma exists_split (h : l[i]? = some a) : ∃ xs ys, l = xs ++ a :: ys ∧ xs.length = i := by
  obtain ⟨hi, rfl⟩ := List.getElem?_eq_some_iff.1 h
  refine ⟨l.take i, l.drop (i + 1), ?_, by simp; omega⟩
  rw [← List.drop_eq_getElem_cons, List.take_append_drop]

/-- Two positions split a list into three parts. -/
lemma exists_split_two (hi : l[i]? = some a) (hj : l[j]? = some b) (hij : i < j) :
    ∃ xs ys zs, l = xs ++ a :: (ys ++ b :: zs) ∧ xs.length = i ∧ xs.length + ys.length + 1 = j := by
  obtain ⟨xs, rest, rfl, rfl⟩ := exists_split hi
  have hrest : rest[j - xs.length - 1]? = some b := by
    obtain ⟨k, rfl⟩ := Nat.exists_eq_add_of_lt hij
    rw [List.getElem?_append_right (by omega)] at hj
    simpa [Nat.add_assoc, Nat.add_sub_cancel_left] using hj
  obtain ⟨ys, zs, rfl, hlen⟩ := exists_split hrest
  exact ⟨xs, ys, zs, rfl, rfl, by omega⟩

/-- Taking out the first of two marked entries moves the second one up by one place. -/
lemma exchange_list (xs ys zs : List β) (a b a' b' : β) :
    (((xs ++ a :: (ys ++ b :: zs)).set (xs.length + ys.length + 1) b').eraseIdx xs.length).insertIdx
      (xs.length + ys.length + 1) a' = xs ++ (ys ++ b' :: a' :: zs) := by
  induction xs with
  | nil =>
    induction ys with
    | nil => rfl
    | cons y ys ih => simpa using ih
  | cons x xs ih =>
    have hlen : (x :: xs).length + ys.length + 1 = (xs.length + ys.length + 1) + 1 := by
      rw [List.length_cons]
      omega
    rw [hlen, List.length_cons]
    simpa using ih

lemma modify_list (xs ys : List β) (a : β) (f : β → β) :
    (xs ++ a :: ys).modify xs.length f = xs ++ f a :: ys := by
  induction xs with
  | nil => rfl
  | cons x xs ih => simpa using ih

end Lists

/-! ## Readers -/

lemma consumers_length (v : String) :
    (g.consumers v).length = g.nodes.countP fun n => n.inputs.contains v := by
  have hzip (nodes : List Node) (k : Nat) : ((nodes.zipIdx k).filterMap fun q =>
      if q.1.inputs.contains v then some q.2 else none).length =
        nodes.countP fun n => n.inputs.contains v := by
    induction nodes generalizing k with
    | nil => rfl
    | cons n nodes ih =>
      rw [List.zipIdx_cons, List.filterMap_cons, List.countP_cons, ← ih (k + 1)]
      cases n.inputs.contains v <;> rfl
  exact hzip g.nodes 0

/-- A value with a single reader is read by no other node. -/
lemma unread_of_consumers {v : String} (hone : (g.consumers v).length = 1) {n : Node}
    {xs ys : List Node} (hnodes : g.nodes = xs ++ n :: ys) (hv : v ∈ n.inputs) :
    ∀ k ∈ xs ++ ys, v ∉ k.inputs := by
  have hn : n.inputs.contains v = true := by simpa using hv
  rw [consumers_length, hnodes, List.countP_append, List.countP_cons, hn, if_pos rfl] at hone
  have hzero : (xs ++ ys).countP (fun k => k.inputs.contains v) = 0 := by
    rw [List.countP_append]
    omega
  intro k hk hmem
  exact List.countP_eq_zero.1 hzero k hk (by simpa using hmem)

lemma consumer?_eq_some {v : String} {j : Nat} (h : g.consumer? v = some j) :
    (g.consumers v).length = 1 := by
  unfold consumer? at h
  split at h
  · rename_i i hi
    rw [hi]
    rfl
  · simp at h

/-! ## Pairs of nodes -/

/-- The operands of a node that reads `a` in the given slot and `b` in the other one. -/
def slotted (slot : Nat) (a b : String) : List String := if slot = 0 then [a, b] else [b, a]

/-- An element-wise operation that combines a computed value with a constant, and the convolution
behind it. -/
structure Pair (g : Graph α) where
  /-- The nodes before the operation. -/
  before : List Node
  /-- The operation. -/
  op : Node
  /-- The nodes between the two. -/
  mid : List Node
  /-- The convolution. -/
  conv : Node
  /-- The nodes after the convolution. -/
  after : List Node
  /-- The attributes of the convolution. -/
  attrs : Conv.Attributes
  /-- The slot of the computed operand. -/
  slot : Nat
  /-- The computed operand. -/
  start : String
  /-- The constant operand. -/
  constant : String
  /-- The result of the operation. -/
  between : String
  /-- The weights of the convolution and its bias, if there is one. -/
  constants : List String
  /-- The result of the convolution. -/
  last : String
  nodes_eq : g.nodes = before ++ op :: (mid ++ conv :: after)
  elementwise : op.IsElementwise
  op_inputs : op.inputs = slotted slot start constant
  op_outputs : op.outputs = [between]
  conv_op : conv.op = .conv attrs
  conv_inputs : conv.inputs = between :: constants
  conv_outputs : conv.outputs = [last]
  start_computed : g.isInitializer start = false
  constant_known : g.isInitializer constant = true
  constants_known : ∀ v ∈ constants, g.isInitializer v = true
  keeps_shape : g.valueShapes[between]? = g.valueShapes[start]?
  not_output : between ∉ g.outputs
  unread : ∀ n ∈ before ++ (mid ++ after), between ∉ n.inputs

namespace Pair

/-- The convolution after the exchange. -/
def newConv (p : Pair g) : Node :=
  { p.conv with inputs := p.start :: p.constants, outputs := [p.between] }

/-- The operation after the exchange, with its constant under the given name. -/
def newOp (p : Pair g) (name : String) : Node :=
  { p.op with inputs := slotted p.slot p.between name, outputs := [p.last] }

/-- The graph in which the operation has moved past the convolution and reads the given constant
under the given name. -/
def exchange (p : Pair g) (name : String) (value : Tensor α) : Graph α :=
  { g with
    initializers := g.initializers.insert name value
    nodes := p.before ++ (p.mid ++ p.newConv :: p.newOp name :: p.after) }

/-- The given constant may be stored under the given name: the name belongs to a constant or is
new, and whoever else reads it finds what it held before. -/
structure Free (p : Pair g) (name : String) (value : Tensor α) : Prop where
  known : g.isInitializer name = true ∨ name ∉ g.sources ∧ name ∉ written g.nodes
  unread : ∀ n ∈ p.before ++ (p.mid ++ p.conv :: p.after), name ∈ n.inputs →
    g.initializers[name]? = some value

lemma constant_mem (p : Pair g) : p.constant ∈ p.op.inputs := by
  rw [p.op_inputs, slotted]
  split <;> simp

lemma start_mem (p : Pair g) : p.start ∈ p.op.inputs := by
  rw [p.op_inputs, slotted]
  split <;> simp

/-- A constant keeps its name, if it keeps its tensor. -/
lemma free_self (p : Pair g) {t : Tensor α} (ht : g.initializers[p.constant]? = some t) :
    p.Free p.constant t :=
  ⟨Or.inl p.constant_known, fun _ _ _ => ht⟩

/-- A constant that only the operation reads may be replaced. -/
lemma free_of_consumers (p : Pair g) (hone : (g.consumers p.constant).length = 1)
    (t : Tensor α) : p.Free p.constant t :=
  ⟨Or.inl p.constant_known, fun n hn hmem =>
    absurd hmem (unread_of_consumers hone p.nodes_eq p.constant_mem n hn)⟩

/-- A fresh name is free for any constant. -/
lemma free_freshName (p : Pair g) (hg : g.WellFormed) (base : String) (t : Tensor α) :
    p.Free (g.freshName base) t := by
  have hnew := hg.not_mentions_freshName base
  refine ⟨Or.inr ⟨?_, ?_⟩, ?_⟩
  · intro hsource
    exact hnew (mentions_source hsource)
  · intro hwritten
    exact hnew (hg.mentions_written hwritten)
  · intro n hn hmem
    have hn' : n ∈ g.nodes := by
      rw [p.nodes_eq]
      simp only [List.mem_append, List.mem_cons] at hn ⊢
      tauto
    exact absurd (mentions_operand hn' hmem) hnew

end Pair

/-! ## Sites of checked graphs -/

lemma dataSlot?_eq_some {n : Node} {slot : Nat} (h : g.dataSlot? n = some slot)
    (hlen : n.inputs.length = 2) :
    slot < 2 ∧ n.inputs = slotted slot (n.operand slot) (n.operand (1 - slot)) ∧
      g.isInitializer (n.operand slot) = false ∧
      g.isInitializer (n.operand (1 - slot)) = true := by
  obtain ⟨a, b, hin⟩ := List.length_eq_two.1 hlen
  unfold dataSlot? at h
  split at h
  · rename_i hfirst hsecond
    obtain rfl := Option.some.inj h
    exact ⟨by omega, by simp [hin, slotted, Node.operand], hfirst, hsecond⟩
  · rename_i hfirst hsecond
    obtain rfl := Option.some.inj h
    exact ⟨by omega, by simp [hin, slotted, Node.operand], hsecond, hfirst⟩
  · simp at h

lemma keepsShape_eq_true {n : Node} {slot : Nat} (h : g.keepsShape n slot = true) :
    g.valueShapes[n.result]? = g.valueShapes[n.operand slot]? := by
  unfold keepsShape at h
  split at h
  · rename_i s hs
    rw [hs]
    simpa using h
  · simp at h

lemma isPlainConv_eq_true {n : Node} {v : String} (h : g.isPlainConv n v = true)
    (harity : n.FitsArity) : ∃ attrs constants, n.op = .conv attrs ∧ n.inputs = v :: constants ∧
      ∀ u ∈ constants, g.isInitializer u = true := by
  simp only [isPlainConv, Bool.and_eq_true, beq_iff_eq, List.all_eq_true] at h
  obtain ⟨⟨hkind, hfirst⟩, hrest⟩ := h
  obtain ⟨attrs, hop⟩ : ∃ attrs, n.op = .conv attrs := by
    cases hop : n.op <;> simp_all [Op.kind]
  have hlen := harity.length_conv hop
  obtain ⟨u, constants, hin⟩ : ∃ u constants, n.inputs = u :: constants :=
    List.exists_cons_of_length_pos (by omega)
  obtain rfl : u = v := by simpa [Node.operand, hin] using hfirst
  exact ⟨attrs, constants, hop, hin, by simpa [hin] using hrest⟩

lemma eq_add_of_kind {op : Op} (h : op.kind = .add) : op = .add := by
  cases op <;> first | rfl | simp [Op.kind] at h

lemma eq_mul_of_kind {op : Op} (h : op.kind = .mul) : op = .mul := by
  cases op <;> first | rfl | simp [Op.kind] at h

lemma isElementwise_of_kind {n : Node} {kind : OpKind} (hkind : kind = .add ∨ kind = .mul)
    (h : n.op.kind = kind) : n.IsElementwise := by
  rcases hkind with rfl | rfl
  · exact Or.inl (eq_add_of_kind h)
  · exact Or.inr (eq_mul_of_kind h)

/-- What a site has been found by. -/
lemma site?_eq_some {kind : OpKind} {i : Nat} {site : Site} (h : g.site? kind i = some site) :
    ∃ n c, g.nodes[i]? = some n ∧ n.op.kind = kind ∧ g.dataSlot? n = some site.dataSlot ∧
      g.keepsShape n site.dataSlot = true ∧ n.result ∉ g.outputs ∧
      (g.consumers n.result).length = 1 ∧ g.nodes[site.conv]? = some c ∧
      g.isPlainConv c n.result = true ∧ site.op = i ∧
      site.constant = n.operand (1 - site.dataSlot) := by
  obtain ⟨n, hn, h⟩ := Option.bind_eq_some_iff.1 h
  obtain ⟨hnode, h⟩ := guard_bind_eq_some_iff.1 h
  obtain ⟨slot, hslot, h⟩ := Option.bind_eq_some_iff.1 h
  obtain ⟨hvalue, h⟩ := guard_bind_eq_some_iff.1 h
  obtain ⟨j, hj, h⟩ := Option.bind_eq_some_iff.1 h
  obtain ⟨c, hc, h⟩ := Option.bind_eq_some_iff.1 h
  obtain ⟨hplain, h⟩ := guard_bind_eq_some_iff.1 h
  obtain rfl := Option.some.inj h
  simp only [Bool.and_eq_true, beq_iff_eq] at hnode hvalue
  obtain ⟨⟨hkind, -⟩, -⟩ := hnode
  obtain ⟨hkeeps, houtput⟩ := hvalue
  refine ⟨n, c, hn, hkind, hslot, hkeeps, ?_, consumer?_eq_some hj, hc, hplain, rfl, rfl⟩
  simpa [isOutput] using houtput

/-- The convolution of a site comes after the operation, whose result it reads. -/
lemma lt_of_reads (hg : g.WellFormed) {n c : Node} {i j : Nat} (hn : g.nodes[i]? = some n)
    (hc : g.nodes[j]? = some c) (hne : n ≠ c) (hread : n.result ∈ c.inputs) : i < j := by
  rcases Nat.lt_trichotomy i j with hlt | rfl | hgt
  · exact hlt
  · rw [hn] at hc
    exact absurd (Option.some.inj hc) hne
  -- In the other order the convolution would read what a later node writes.
  · obtain ⟨xs, ys, zs, hnodes, -⟩ := exists_split_two hc hn hgt
    have hordered := hg.ordered
    rw [hnodes] at hordered
    exact absurd (by simp) (hordered.notMem_written_of_reads hread)

@[simp] lemma initializers_moveAlong (site : Site) :
    (g.moveAlong site).initializers = g.initializers := by
  unfold moveAlong
  split <;> rfl

/-- Renaming the constant and exchanging the two nodes of a split list. -/
lemma moveAlong_withConstant {site : Site} {xs ys zs : List Node} {n c : Node}
    (hnodes : g.nodes = xs ++ n :: (ys ++ c :: zs)) (hop : xs.length = site.op)
    (hconv : xs.length + ys.length + 1 = site.conv) (name : String) (value : Tensor α) :
    let n' := { n with inputs := n.inputs.set (1 - site.dataSlot) name }
    (Rule.withConstant g site name value).moveAlong site = { g with
      initializers := g.initializers.insert name value
      nodes := xs ++ (ys ++ movedConv c (n'.operand site.dataSlot) n.result ::
        movedOp n' site.dataSlot n.result c.result :: zs) } := by
  intro n'
  have hmodified : (Rule.withConstant g site name value).nodes = xs ++ n' :: (ys ++ c :: zs) := by
    rw [Rule.withConstant, hnodes, ← hop]
    exact modify_list xs (ys ++ c :: zs) n _
  have hn' : (xs ++ n' :: (ys ++ c :: zs))[site.op]? = some n' := by
    simp [← hop]
  have hc : (xs ++ n' :: (ys ++ c :: zs))[site.conv]? = some c := by
    rw [← hconv, Nat.add_assoc, List.getElem?_append_right (by omega)]
    simp
  simp only [moveAlong, hmodified, hn', hc]
  rw [← hop, ← hconv, exchange_list]
  rfl

/-- Only the slot of the constant is renamed, and only the other one reads the new image. -/
lemma movedOp_renamed {n : Node} {slot : Nat} (hslot : slot < 2) (hlen : n.inputs.length = 2)
    (name between last : String) :
    let n' := { n with inputs := n.inputs.set (1 - slot) name }
    n'.operand slot = n.operand slot ∧ movedOp n' slot between last =
      { n with inputs := slotted slot between name, outputs := n.outputs.set 0 last } := by
  obtain ⟨a, b, hin⟩ := List.length_eq_two.1 hlen
  obtain rfl | rfl : slot = 0 ∨ slot = 1 := by omega
  · simp [movedOp, Node.operand, slotted, hin]
  · simp [movedOp, Node.operand, slotted, hin]

/-- **A site of a checked graph is a pair of nodes, and moving the operation along it is the
exchange of the pair.** -/
theorem exists_pair (hg : g.IsChecked) {kind : OpKind} (hkind : kind = .add ∨ kind = .mul) {i : Nat}
    {site : Site} (h : g.site? kind i = some site) : ∃ p : Pair g, p.op.op.kind = kind ∧
      p.constant = site.constant ∧ g.nodes[site.conv]? = some p.conv ∧
      ∀ name value, (Rule.withConstant g site name value).moveAlong site =
        p.exchange name value := by
  obtain ⟨n, c, hn, hnkind, hslot, hkeeps, houtput, hone, hc, hplain, hop, hconstant⟩ :=
    site?_eq_some h
  have hnmem : n ∈ g.nodes := List.mem_of_getElem? hn
  have hcmem : c ∈ g.nodes := List.mem_of_getElem? hc
  have hnarity := hg.wellFormed.arity n hnmem
  have helementwise := isElementwise_of_kind hkind hnkind
  obtain ⟨hslotlt, hin, hstart, hknown⟩ :=
    dataSlot?_eq_some hslot (hnarity.length_elementwise helementwise)
  obtain ⟨attrs, constants, hcop, hcin, hconstants⟩ :=
    isPlainConv_eq_true hplain (hg.wellFormed.arity c hcmem)
  have hne : n ≠ c := by
    rintro rfl
    rcases helementwise with hadd | hmul <;> simp_all
  have hlt := lt_of_reads hg.wellFormed hn hc hne (by rw [hcin]; exact List.mem_cons_self)
  obtain ⟨xs, ys, zs, hnodes, hi, hj⟩ := exists_split_two hn hc hlt
  have hnodes' : g.nodes = (xs ++ n :: ys) ++ c :: zs := by simp [hnodes]
  have hunread := unread_of_consumers hone hnodes' (by rw [hcin]; exact List.mem_cons_self)
  have hcout : c.outputs = [c.result] := (hg.wellFormed.arity c hcmem).results
  refine ⟨{
    before := xs, op := n, mid := ys, conv := c, after := zs, attrs, slot := site.dataSlot
    start := n.operand site.dataSlot, constant := site.constant, between := n.result, constants
    last := c.result, nodes_eq := hnodes, elementwise := helementwise
    op_inputs := hconstant ▸ hin, op_outputs := hnarity.results, conv_op := hcop
    conv_inputs := hcin, conv_outputs := hcout, start_computed := hstart
    constant_known := hconstant ▸ hknown, constants_known := hconstants
    keeps_shape := keepsShape_eq_true hkeeps, not_output := houtput, unread := ?_ },
    hnkind, rfl, hc, fun name value => ?_⟩
  · intro k hk
    refine hunread k ?_
    simp only [List.mem_append, List.mem_cons] at hk ⊢
    tauto
  · obtain ⟨hoperand, hmoved⟩ := movedOp_renamed hslotlt
      (hnarity.length_elementwise helementwise) name n.result c.result
    rw [moveAlong_withConstant hnodes (hop ▸ hi) hj, hoperand, hmoved, hnarity.results]
    simp only [movedConv, hcin, hcout, List.set_cons_zero]
    rfl

end ConvFlow.Graph
