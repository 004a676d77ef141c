/-
# The order in which nodes are listed

A graph may list its nodes in any order; checking it sorts them.  The sort picks one of many
suitable orders, and which one depends on the listing.  The choice has no effect on what the graph
computes: `checked_reordered` compares two listings of the same nodes.

No exchange of neighbouring nodes is looked at.  The shapes and the tensors of a checked graph are
the only solutions of equations in which the order of the nodes does not occur, so all suitable
orders share them.
-/
import ConvFlow.Proofs.Execution.Run
import ConvFlow.Proofs.Graph.Order

namespace ConvFlow.Graph

open Outcome Execution

variable {α : Type} [Element α] {g h : Graph α} {start final : Context α}
  {given m : NameMap (Tensor α)}

/-- Every suitable order of the nodes fills the table of a run with the same tensors. -/
lemma IsChecked.fill_reordered (hg : g.IsChecked) (hh : h.IsChecked) (h' : Reordered g h)
    (hfill : fill runOp start g.nodes = .ok final) : fill runOp start h.nodes = .ok final := by
  have hsolves : Solves runOp start g.nodes final :=
    solves_of_fill runOp_readsOperands hg.wellFormed.arity hg.wellFormed.ordered hfill
  have hsolves' : Solves runOp start h.nodes final := hsolves.perm h'.nodes.symm
  exact fill_of_solves runOp_readsOperands hh.wellFormed.arity hh.wellFormed.ordered hsolves'

/-- What is delivered in one order of the nodes is delivered in every other one. -/
lemma IsChecked.execute_reordered (hg : g.IsChecked) (hh : h.IsChecked) (h' : Reordered g h)
    (hexecute : g.execute given = .ok m) : h.execute given = .ok m := by
  obtain ⟨start, final, hstart, hfill, hdeliver⟩ := execute_eq_ok_iff.1 hexecute
  have hstart' : initialContext h given = .ok start := by
    rw [initialContext, h'.inputs, h'.initializers]
    exact hstart
  have hfill' : fill runOp start h.nodes = .ok final := hg.fill_reordered hh h' hfill
  rw [← h'.outputs] at hdeliver
  exact execute_eq_ok_iff.2 ⟨start, final, hstart', hfill', hdeliver⟩

/-- **The order in which the nodes are listed does not matter.**  Either both listings can be
checked or neither can.  The checked graphs record the same shapes, and for every choice of inputs
either both executions fail or both deliver the same tensors. -/
theorem checked_reordered {nodes : List Node} (hperm : nodes.Perm g.nodes) :
    ((∃ h, g.checked = .ok h) ↔ ∃ h', { g with nodes := nodes }.checked = .ok h') ∧
      ∀ h h', g.checked = .ok h → { g with nodes := nodes }.checked = .ok h' →
        h.valueShapes = h'.valueShapes ∧
          ∀ given m, h.execute given = .ok m ↔ h'.execute given = .ok m := by
  have hlisted : Reordered g { g with nodes := nodes } := .of_perm hperm
  refine ⟨?_, fun h h' hchecked hchecked' => ?_⟩
  · rw [exists_checked_iff, exists_checked_iff]
    constructor
    · rintro ⟨h, hgh, hh⟩
      exact ⟨h, hlisted.symm.trans hgh, hh⟩
    · rintro ⟨h', hgh', hh'⟩
      exact ⟨h', hlisted.trans hgh', hh'⟩
  · have hh : h.IsChecked := isChecked_of_checked hchecked
    have hh' : h'.IsChecked := isChecked_of_checked hchecked'
    have hsorted : Reordered h h' := (reordered_of_checked hchecked).symm.trans
      (hlisted.trans (reordered_of_checked hchecked'))
    refine ⟨(hh.valueShapes_eq hh' hsorted).symm, fun given m => ?_⟩
    constructor
    · intro hexecute
      exact hh.execute_reordered hh' hsorted hexecute
    · intro hexecute
      exact hh'.execute_reordered hh hsorted.symm hexecute

/-- Two branches that read the same input and are added up. -/
def forked : Graph Rat where
  name := "forked"
  inputs := [⟨"x", [2]⟩]
  outputs := ["sum", "clipped"]
  nodes := [
    ⟨"join", .add, ["scaled", "clipped"], ["sum"]⟩,
    ⟨"clip", .relu, ["x"], ["clipped"]⟩,
    ⟨"scale", .mul, ["factor", "x"], ["scaled"]⟩]
  initializers := (∅ : NameMap (Tensor Rat)).insert "factor" (.fill [2, 1] 3)
  valueShapes := ∅

lemma forked_checked : ∃ h h', forked.checked = .ok h ∧
    { forked with nodes := forked.nodes.reverse }.checked = .ok h' ∧
    h.nodes.map (·.name) = ["clip", "scale", "join"] ∧
    h'.nodes.map (·.name) = ["scale", "clip", "join"] :=
  ⟨_, _, rfl, rfl, rfl, rfl⟩

/-- Listed backwards, the two branches are sorted into another order, with the same results. -/
theorem forked_backwards : ∃ h h', forked.checked = .ok h ∧
    { forked with nodes := forked.nodes.reverse }.checked = .ok h' ∧
    forked.nodes.reverse.Perm forked.nodes ∧
    h.nodes.map (·.name) ≠ h'.nodes.map (·.name) ∧ h.valueShapes = h'.valueShapes ∧
    ∀ given m, h.execute given = .ok m ↔ h'.execute given = .ok m := by
  obtain ⟨h, h', hchecked, hchecked', hnames, hnames'⟩ := forked_checked
  have hperm : forked.nodes.reverse.Perm forked.nodes := List.reverse_perm _
  obtain ⟨hshapes, hexecute⟩ := (checked_reordered hperm).2 h h' hchecked hchecked'
  refine ⟨h, h', hchecked, hchecked', hperm, ?_, hshapes, hexecute⟩
  rw [hnames, hnames']
  decide

end ConvFlow.Graph
