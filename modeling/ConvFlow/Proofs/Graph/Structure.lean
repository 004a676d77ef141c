/-
# What sorting and validation agree on

Sorting and validation decide separately whether a node can read its operands.  The sort asks first
whether a value is written anywhere, and then takes nodes whose operands are available, wherever
they stand; the validation goes along the nodes once and keeps the names that are available so far.

Both come down to the same: a graph is `Structured` if no value has two writers and each node
reads what is available when it runs.  The sort leaves a structured graph behind
(`structured_of_sort`), and in a structured graph the validation finds fault with something else
at most (`Structured.sparesStructure`).  The main statement, `sort_agrees_validate`, adds the
converse: what passes the validation is sorted already.
-/
import ConvFlow.Proofs.Execution.Safety
import ConvFlow.Proofs.Graph.Order

namespace ConvFlow.Graph

open Outcome

variable {α : Type} {g h : Graph α} {available : List String} {nodes : List Node} {n : Node}
  {e : Error}

/-- The violations of structure: a value with two writers, and a read of a value that nothing
provides or that is not available yet. -/
def Error.IsStructural : Error → Prop
  | .duplicateProducer _ | .danglingReference _ _ | .notTopological _ _ => True
  | _ => False

/-- Each node reads only names that are available when it runs.  A node that has run makes all of
its results available. -/
def InTurn : List String → List Node → Prop
  | _, [] => True
  | available, n :: rest =>
    (∀ v ∈ n.inputs, v ∈ available) ∧ InTurn (n.outputs ++ available) rest

/-- No value has two writers, and each node reads only what is available when it runs. -/
structure Structured (g : Graph α) : Prop where
  producers : g.checkProducers = .ok ()
  inTurn : InTurn g.sources g.nodes

/-! ## What the sort leaves behind -/

/-- Nodes are placed in turn, whatever the nodes and however many rounds. -/
lemma inTurn_place (available : List String) (rounds : Nat) (pending : List Node) :
    InTurn available (place available rounds pending).1 := by
  induction rounds generalizing available pending with
  | zero => trivial
  | succ rounds ih =>
    rw [place]
    cases htake : takeFirst (fun n => n.inputs.all available.contains) pending with
    | none => trivial
    | some found =>
      obtain ⟨n, rest⟩ := found
      obtain ⟨-, -, -, -, hready, -⟩ := takeFirst_eq_some_iff.1 htake
      exact ⟨isReady_iff.1 hready, ih (n.outputs ++ available) rest⟩

/-- **A sorted graph is structured.** -/
lemma structured_of_sort (hsort : g.sort = (h, .ok ())) : h.Structured := by
  obtain ⟨hproducers, -, -, hplaced⟩ := sort_eq_ok_iff.1 hsort
  obtain ⟨hperm, heq⟩ := perm_of_sorted (sorted_eq_ok_iff.2 hsort)
  have hreordered : Reordered g h := heq ▸ Reordered.of_perm hperm
  refine ⟨hreordered.checkProducers hproducers, ?_⟩
  rw [hreordered.sources, hplaced]
  exact inTurn_place g.sources g.nodes.length g.nodes

/-! ## What the validation finds in a structured graph -/

/-- The check, if it fails, fails for another reason than structure. -/
def SparesStructure {β : Type} (check : Except Error β) : Prop :=
  ∀ e, check = .error e → ¬e.IsStructural

namespace SparesStructure

variable {β γ : Type}

lemma ok (b : β) : SparesStructure (.ok b) := fun _ hcheck => nomatch hcheck

lemma error (he : ¬e.IsStructural) : SparesStructure (.error e : Except Error β) :=
  fun _ hcheck => Except.error.inj hcheck ▸ he

lemma bind {check : Except Error β} {next : β → Except Error γ} (hcheck : SparesStructure check)
    (hnext : ∀ b, SparesStructure (next b)) : SparesStructure (check >>= next) := by
  cases check with
  | error e => exact error (hcheck e rfl)
  | ok b => exact hnext b

end SparesStructure

lemma checkArity_sparesStructure (n : Node) : SparesStructure (checkArity n) := by
  unfold checkArity
  split
  · exact .error id
  · split
    · exact .error id
    · exact .ok ()

lemma checkSteps_sparesStructure (n : Node) (attrs : Conv.Attributes) :
    SparesStructure (checkSteps n attrs) := by
  unfold checkSteps
  split
  · exact .error id
  · split
    · exact .error id
    · exact .ok ()

lemma constantOperand_sparesStructure (g : Graph α) (n : Node) (i : Nat) :
    SparesStructure (g.constantOperand n i) := by
  unfold constantOperand
  split
  · exact .ok _
  · exact .error id

lemma checkConstants_sparesStructure (g : Graph α) (n : Node) (attrs : Conv.Attributes) :
    SparesStructure (g.checkConstants n attrs) := by
  refine (checkSteps_sparesStructure n attrs).bind fun _ =>
    (constantOperand_sparesStructure g n 1).bind fun weights => ?_
  split
  · exact .error id
  · split
    · refine (constantOperand_sparesStructure g n 2).bind fun bias => ?_
      dsimp only
      split
      · exact .error id
      · exact .ok ()
    · exact .ok ()

/-- If its operands are available, a node is refused for another reason. -/
lemma checkNode_sparesStructure (hreads : ∀ v ∈ n.inputs, v ∈ available) :
    SparesStructure (g.checkNode available n) := by
  rw [checkNode, checkOperands_eq_ok_iff.2 hreads, ok_bind]
  refine (checkArity_sparesStructure n).bind fun _ => ?_
  split
  · exact checkConstants_sparesStructure g n _
  · exact .ok ()

lemma InTurn.sparesStructure (hturn : InTurn available nodes) :
    SparesStructure (g.checkNodes available nodes) := by
  induction nodes generalizing available with
  | nil => exact .ok available
  | cons n rest ih =>
    obtain ⟨hreads, hrest⟩ := hturn
    exact (checkNode_sparesStructure hreads).bind fun _ => ih hrest

/-- **The validation finds nothing wrong with the structure of a structured graph.** -/
lemma Structured.sparesStructure (hg : g.Structured) : SparesStructure g.validate := by
  rw [validate, hg.producers, ok_bind]
  refine hg.inTurn.sparesStructure.bind fun after => ?_
  split
  · exact .error id
  · exact .ok ()

/-! ## The two together -/

/-- **Sorting and validation agree on structure.**  Whatever the validation finds wrong with a graph
that has been sorted, it is not a value with two writers, nor a read of a value that nothing
provides or that is not available yet.  A graph that passes the validation is sorted already, and
checking it is inferring its shapes. -/
theorem sort_agrees_validate (g : Graph α) :
    (∀ h e, g.sort = (h, .ok ()) → h.validate = .error e → ¬e.IsStructural) ∧
    (g.validate = .ok () →
      g.sort = (g, .ok ()) ∧ g.checked = g.inferShapes.mapError Error.shape) := by
  refine ⟨fun h e hsort hvalid => (structured_of_sort hsort).sparesStructure e hvalid,
    fun hvalid => ?_⟩
  have hsorted : g.sorted = .ok g := (validate_eq_ok_iff.1 hvalid).sorted
  refine ⟨sorted_eq_ok_iff.1 hsorted, ?_⟩
  rw [checked, hsorted, ok_bind, hvalid, ok_bind]

/-- A node with an operand too many, listed before the node that it reads from. -/
def overfed : Graph Rat where
  name := "overfed"
  inputs := [⟨"x", [1]⟩]
  outputs := ["y"]
  nodes := [⟨"clip", .relu, ["t", "x"], ["y"]⟩, ⟨"double", .add, ["x", "x"], ["t"]⟩]
  initializers := ∅
  valueShapes := ∅

/-- The overfed graph is sorted and then refused for its operands, and the small graph passes and is
sorted already. -/
theorem overfed_sorted :
    (∃ h, overfed.sort = (h, .ok ()) ∧ h.validate = .error (.operands "clip" .relu 2) ∧
      ¬(Error.operands "clip" .relu 2).IsStructural) ∧
    Execution.smallGraph.validate = .ok () ∧
      Execution.smallGraph.sort = (Execution.smallGraph, .ok ()) ∧
      Execution.smallGraph.checked
        = Execution.smallGraph.inferShapes.mapError Error.shape := by
  have hsort : overfed.sort = ({ overfed with nodes := overfed.nodes.reverse }, .ok ()) := rfl
  have hvalid : { overfed with nodes := overfed.nodes.reverse }.validate
      = .error (.operands "clip" .relu 2) := rfl
  have hsmall : Execution.smallGraph.validate = .ok () := rfl
  exact ⟨⟨_, hsort, hvalid, (sort_agrees_validate overfed).1 _ _ hsort hvalid⟩,
    hsmall, (sort_agrees_validate Execution.smallGraph).2 hsmall⟩

end ConvFlow.Graph
