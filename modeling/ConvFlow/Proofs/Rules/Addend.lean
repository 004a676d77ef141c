/-
# Which constants a moved addition leaves alone

An addition that moves past its convolution stores a new constant.  If the addition is the only
node that reads its constant, the old one is replaced under its name; otherwise the new one gets a
name that is not in use.  So no node other than the addition finds a constant changed
(`addPastConv_frame`).

Only nodes count as readers here.  A constant that the graph delivers as an output may be replaced
as well, and then the graph delivers another tensor (`deliveredAddend_replaced`).
-/
import ConvFlow.Proofs.Execution.Safety
import ConvFlow.Proofs.Rules.Site

namespace ConvFlow

open Outcome

namespace Graph

variable {α : Type} {g : Graph α} {v : String} {i j : Nat}

/-! ## Readers by their positions -/

lemma mem_consumers_iff : i ∈ g.consumers v ↔ ∃ n, g.nodes[i]? = some n ∧ v ∈ n.inputs := by
  simp only [consumers, List.mem_filterMap, Prod.exists, Option.ite_none_right_eq_some,
    List.contains_iff_mem, Option.some.injEq]
  constructor
  · rintro ⟨n, k, hn, hv, rfl⟩
    exact ⟨n, List.mk_mem_zipIdx_iff_getElem?.1 hn, hv⟩
  · rintro ⟨n, hn, hv⟩
    exact ⟨n, i, List.mk_mem_zipIdx_iff_getElem?.2 hn, hv, rfl⟩

/-- A value with a single reader is read at one position only. -/
lemma eq_of_mem_consumers (hone : (g.consumers v).length = 1) (hi : i ∈ g.consumers v)
    (hj : j ∈ g.consumers v) : i = j := by
  obtain ⟨k, hk⟩ := List.length_eq_one_iff.1 hone
  rw [hk, List.mem_singleton] at hi hj
  rw [hi, hj]

/-- The constant of a site is an operand of its operation. -/
lemma constant_mem_of_site (hg : g.WellFormed) {kind : OpKind} (hkind : kind = .add ∨ kind = .mul)
    {site : Site} (hsite : g.site? kind i = some site) :
    ∃ n, g.nodes[i]? = some n ∧ n.op.kind = kind ∧ site.constant ∈ n.inputs := by
  obtain ⟨n, c, hn, hnkind, hslot, -, -, -, -, -, -, hconstant⟩ := site?_eq_some hsite
  have harity := hg.arity n (List.mem_of_getElem? hn)
  have htwo := harity.length_elementwise (isElementwise_of_kind hkind hnkind)
  refine ⟨n, hn, hnkind, ?_⟩
  rw [hconstant]
  exact Node.operand_mem (by omega)

end Graph

namespace Rule

variable {σ α : Type} [Element α] {g₀ g h : Graph α} {i : Nat} {v : String}

/-- Moving an addition touches no constant but the one under the name of the new one. -/
lemma initializers_of_addPastConvAt (h' : addPastConvAt g i = some h) : ∃ site,
    g.site? .add i = some site ∧
      ∀ v, addendName g site ≠ v → h.initializers[v]? = g.initializers[v]? := by
  obtain ⟨site, hsite, h'⟩ := Option.bind_eq_some_iff.1 h'
  obtain ⟨c, -, h'⟩ := Option.bind_eq_some_iff.1 h'
  refine ⟨site, hsite, fun v hv => ?_⟩
  split at h'
  · obtain ⟨-, h'⟩ := guard_bind_eq_some_iff.1 h'
    obtain ⟨addend, -, h'⟩ := Option.bind_eq_some_iff.1 h'
    obtain ⟨weights, -, h'⟩ := Option.bind_eq_some_iff.1 h'
    obtain ⟨folded, -, h'⟩ := Option.bind_eq_some_iff.1 h'
    obtain rfl := Option.some.inj h'
    rw [Graph.initializers_moveAlong]
    exact NameMap.getElem?_insert_of_ne hv _ _
  · simp at h'

omit [Element α] in
/-- The name of the new constant belongs to an old one only if nobody else reads that one. -/
lemma addendName_ne {site : Graph.Site} (hknown : g.isInitializer v = true)
    (hother : v = site.constant → (g.consumers v).length ≠ 1) : addendName g site ≠ v := by
  rw [addendName]
  split
  · rename_i hone
    rintro rfl
    exact hother rfl hone
  · -- A constant is a name in use, and a fresh name is none.
    rintro rfl
    refine Graph.freshName_notMem g site.constant ?_
    exact Graph.mem_namesInUse_iff.2 (Or.inr (Or.inl hknown))

/-- **A moved addition changes only a constant that it alone reads.**  Every constant that another
node reads, or that the addition does not read, keeps its tensor. -/
theorem addPastConv_frame (hchecked : g₀.checked = .ok g) {s : σ}
    (hattempt : ((addPastConv : Rule σ α).attempt s g).1 = .ok (some h)) :
    ∃ i n, addPastConvAt g i = some h ∧ g.nodes[i]? = some n ∧ n.op = .add ∧
      ∀ v, g.isInitializer v = true →
        (v ∈ n.inputs → ∃ j m, j ≠ i ∧ g.nodes[j]? = some m ∧ v ∈ m.inputs) →
        h.initializers[v]? = g.initializers[v]? := by
  have hg := Graph.isChecked_of_checked hchecked
  obtain ⟨i, -, hi⟩ := List.exists_of_findSome?_eq_some (Except.ok.inj hattempt)
  obtain ⟨site, hsite, hkept⟩ := initializers_of_addPastConvAt hi
  obtain ⟨n, hn, hkind, hconstant⟩ :=
    Graph.constant_mem_of_site hg.wellFormed (Or.inl rfl) hsite
  refine ⟨i, n, hi, hn, Graph.eq_add_of_kind hkind, fun v hknown hother => ?_⟩
  refine hkept v (addendName_ne hknown ?_)
  rintro rfl hone
  obtain ⟨j, m, hne, hm, hread⟩ := hother hconstant
  have hfirst : i ∈ g.consumers site.constant := Graph.mem_consumers_iff.2 ⟨n, hn, hconstant⟩
  have hsecond : j ∈ g.consumers site.constant := Graph.mem_consumers_iff.2 ⟨m, hm, hread⟩
  exact hne (Graph.eq_of_mem_consumers hone hsecond hfirst)

/-- In the small graph the offset is read twice, and the shift moves without changing it. -/
theorem smallGraph_frame : ∃ g h, Execution.smallGraph.checked = .ok g ∧
    ((addPastConv : Rule Unit Rat).attempt () g).1 = .ok (some h) ∧
    ∃ i n, addPastConvAt g i = some h ∧ g.nodes[i]? = some n ∧ n.op = .add ∧
      ∀ v, g.isInitializer v = true →
        (v ∈ n.inputs → ∃ j m, j ≠ i ∧ g.nodes[j]? = some m ∧ v ∈ m.inputs) →
        h.initializers[v]? = g.initializers[v]? := by
  obtain ⟨g, h, hg, hattempt⟩ : ∃ g h, Execution.smallGraph.checked = .ok g ∧
      ((addPastConv : Rule Unit Rat).attempt () g).1 = .ok (some h) := ⟨_, _, rfl, rfl⟩
  exact ⟨g, h, hg, hattempt, addPastConv_frame hg hattempt⟩

/-- A graph that delivers the constant that it adds, besides the result of its convolution. -/
def deliveredAddend : Graph Rat where
  name := "delivered"
  inputs := [⟨"x", [1, 1, 1, 1]⟩]
  outputs := ["y", "a"]
  nodes := [
    ⟨"add", .add, ["x", "a"], ["t"]⟩,
    ⟨"conv", .conv { kernel := ⟨1, 1⟩ }, ["t", "w"], ["y"]⟩]
  initializers := Std.ExtTreeMap.ofList ([
    ("a", .fill [1] 1),
    ("w", .fill [1, 1, 1, 1] 2)] : List (String × Tensor Rat)) compare
  valueShapes := ∅

/-- The constant is replaced although it is an output, and the outputs of the graph change. -/
theorem deliveredAddend_replaced : ∃ g h, deliveredAddend.checked = .ok g ∧
    ((addPastConv : Rule Unit Rat).attempt () g).1 = .ok (some h) ∧ "a" ∈ g.outputs ∧
    g.initializers["a"]? = some (.fill [1] 1) ∧
    h.initializers["a"]? = some (.fill [1, 1, 1, 1] 2) :=
  ⟨_, _, rfl, rfl, by decide, by decide +kernel, by decide +kernel⟩

end Rule

end ConvFlow
