/-
# Which outputs a graph delivers

Every output of a well-formed graph has a tensor once all nodes have run (`exists_of_output`).
Delivering takes the outputs out of the table one after another, so the tensor of an output is gone
when the list names the output once more.

`checked_delivers` says what follows for any list of outputs.  If they are distinct, all of them
are delivered, be they inputs, constants or results.  Otherwise the execution fails at the first
output that has been named before, with the error that it has not been computed
(`repeated_missing`).
-/
import Mathlib.Data.List.Induction
import ConvFlow.Proofs.Execution.Sources

namespace ConvFlow.Execution

open Outcome ConvFlow.Graph

variable {α : Type} {g₀ g : Graph α} {given : NameMap (Tensor α)} {start final ctx : Context α}
  {vs : List String} {v : String}

/-! ## Delivering from a table that holds all outputs -/

/-- Taking a value out of the table leaves all values with other names in it. -/
lemma held_erase (hnew : v ∉ vs) (hheld : ∀ w ∈ vs, ∃ t, ctx[w]? = some t) :
    ∀ w ∈ vs, ∃ t, (ctx.erase v)[w]? = some t := by
  intro w hw
  have hne : v ≠ w := fun heq => hnew (heq ▸ hw)
  rw [getElem?_erase, if_neg hne]
  exact hheld w hw

/-- Distinct outputs that the table holds are delivered. -/
lemma exists_deliver (hnodup : vs.Nodup) (hheld : ∀ v ∈ vs, ∃ t, ctx[v]? = some t) :
    ∃ m, deliver vs ctx = .ok m := by
  induction vs generalizing ctx with
  | nil => exact ⟨∅, rfl⟩
  | cons w vs ih =>
    obtain ⟨hnew, hnodup⟩ := List.nodup_cons.1 hnodup
    obtain ⟨⟨t, ht⟩, hheld⟩ := List.forall_mem_cons.1 hheld
    obtain ⟨m, hm⟩ := ih hnodup (held_erase hnew hheld)
    exact ⟨m.insert w t, deliver_cons_eq_ok_iff.2 ⟨t, m, ht, hm, rfl⟩⟩

/-- An output that is gone, or goes with an earlier one, is the first that is found missing. -/
lemma deliver_of_missing {earlier later : List String} (hnodup : earlier.Nodup)
    (hheld : ∀ w ∈ earlier, ∃ t, ctx[w]? = some t) (hv : v ∈ earlier ∨ ctx[v]? = none) :
    deliver (earlier ++ v :: later) ctx = .error (.missingOutput v) := by
  induction earlier generalizing ctx with
  | nil =>
    have hnone : ctx[v]? = none := hv.resolve_left List.not_mem_nil
    rw [List.nil_append, deliver, hnone]
  | cons w earlier ih =>
    obtain ⟨hnew, hnodup⟩ := List.nodup_cons.1 hnodup
    obtain ⟨⟨t, ht⟩, hheld⟩ := List.forall_mem_cons.1 hheld
    have hgone : v ∈ earlier ∨ (ctx.erase w)[v]? = none := by
      rw [getElem?_erase]
      rcases hv with hmem | hnone
      · rcases List.mem_cons.1 hmem with rfl | hmem
        · exact Or.inr (if_pos rfl)
        · exact Or.inl hmem
      · right
        split
        · rfl
        · exact hnone
    rw [List.cons_append, deliver, ht]
    simp only [ih hnodup (held_erase hnew hheld) hgone, map_error]

/-- A list with a repetition has a first entry that repeats an earlier one. -/
lemma exists_first_repeat (h : ¬ vs.Nodup) :
    ∃ earlier v later, vs = earlier ++ v :: later ∧ earlier.Nodup ∧ v ∈ earlier := by
  induction vs using List.reverseRecOn with
  | nil => exact absurd List.nodup_nil h
  | append_singleton vs w ih =>
    by_cases hnodup : vs.Nodup
    · have hmem : w ∈ vs := by
        by_contra hnew
        have hcons : (w :: vs).Nodup := List.nodup_cons.2 ⟨hnew, hnodup⟩
        exact h ((List.perm_append_singleton w vs).nodup_iff.2 hcons)
      exact ⟨vs, w, [], rfl, hnodup, hmem⟩
    · obtain ⟨earlier, v, later, rfl, hearlier, hv⟩ := ih hnodup
      exact ⟨earlier, v, later ++ [w], by simp, hearlier, hv⟩

/-! ## Executions of checked graphs -/

variable [Element α]

/-- Once all nodes have run, every output has a tensor. -/
lemma exists_of_output (hg : g.WellFormed) (hstart : initialContext g given = .ok start)
    (hrun : g.nodes.foldlM runNode start = .ok final) (hv : v ∈ g.outputs) :
    ∃ t, final[v]? = some t := by
  rw [foldlM_runNode] at hrun
  have hsolves : Solves runOp start g.nodes final :=
    solves_of_fill runOp_readsOperands hg.arity hg.ordered hrun
  rcases hg.outputs v hv with hsource | ⟨n, hn, rfl⟩
  · obtain ⟨hgiven, hentries⟩ := supplies_of_initialContext hstart
    rw [hsolves.frame v (hg.source_notMem_written hsource)]
    exact exists_of_source hgiven hentries hsource
  · obtain ⟨t, -, ht⟩ := hsolves.entry n hn
    exact ⟨t, ht⟩

/-- **A checked graph delivers its outputs exactly if they are distinct.**  Suppose that the inputs
suit the declarations and all nodes have run.  If no output is named twice, the execution delivers
the tensor of every one; otherwise it reports the first output that repeats an earlier one as
missing, although this one has a tensor. -/
theorem checked_delivers (hchecked : g₀.checked = .ok g)
    (hstart : initialContext g given = .ok start)
    (hrun : g.nodes.foldlM runNode start = .ok final) :
    (g.outputs.Nodup ∧ ∃ m, g.execute given = .ok m ∧
        ∀ v ∈ g.outputs, ∃ t, final[v]? = some t ∧ m[v]? = some t) ∨
      ∃ earlier v later, g.outputs = earlier ++ v :: later ∧ earlier.Nodup ∧ v ∈ earlier ∧
        (∃ t, final[v]? = some t) ∧ g.execute given = .error (.missingOutput v) := by
  have hg : g.IsChecked := isChecked_of_checked hchecked
  have hheld : ∀ v ∈ g.outputs, ∃ t, final[v]? = some t := fun v hv =>
    exists_of_output hg.wellFormed hstart hrun hv
  have hexecute : g.execute given = deliver g.outputs final := by
    rw [foldlM_runNode] at hrun
    exact execute_of_fill hstart hrun
  rw [hexecute]
  by_cases hnodup : g.outputs.Nodup
  · obtain ⟨m, hm⟩ := exists_deliver hnodup hheld
    exact Or.inl ⟨hnodup, m, hm, fun v hv => getElem?_deliver hm hv⟩
  · obtain ⟨earlier, v, later, houtputs, hearlier, hv⟩ := exists_first_repeat hnodup
    rw [houtputs, List.forall_mem_append] at hheld
    refine Or.inr ⟨earlier, v, later, houtputs, hearlier, hv, hheld.1 v hv, ?_⟩
    rw [houtputs]
    exact deliver_of_missing hearlier hheld.1 (Or.inl hv)

/-- A single node, delivered under the given names. -/
def delivering (outputs : List String) : Graph Rat where
  name := "delivering"
  inputs := [⟨"x", [2]⟩]
  outputs
  nodes := [⟨"scale", .mul, ["x", "factor"], ["y"]⟩]
  initializers := (∅ : NameMap (Tensor Rat)).insert "factor" (.fill [1] 3)
  valueShapes := ∅

/-- An input for the node. -/
def deliveringInput : NameMap (Tensor Rat) :=
  (∅ : NameMap (Tensor Rat)).insert "x" (.ofFn [2] fun idx => idx.getLastD 0)

/-- An input, a constant and a result are delivered together. -/
theorem delivering_all : ∃ g start final m, (delivering ["y", "x", "factor"]).checked = .ok g ∧
    initialContext g deliveringInput = .ok start ∧ g.nodes.foldlM runNode start = .ok final ∧
    g.execute deliveringInput = .ok m ∧
    ∀ v ∈ ["y", "x", "factor"], ∃ t, final[v]? = some t ∧ m[v]? = some t := by
  obtain ⟨g, start, final, hchecked, hstart, hrun, houtputs⟩ :
      ∃ g start final, (delivering ["y", "x", "factor"]).checked = .ok g ∧
        initialContext g deliveringInput = .ok start ∧
        g.nodes.foldlM runNode start = .ok final ∧ g.outputs = ["y", "x", "factor"] :=
    ⟨_, _, _, rfl, rfl, rfl, rfl⟩
  have hdistinct : g.outputs.Nodup := by
    rw [houtputs]
    decide
  rcases checked_delivers hchecked hstart hrun with ⟨-, m, hm, hall⟩ |
      ⟨earlier, v, later, hsplit, -, hv, -, -⟩
  · rw [houtputs] at hall
    exact ⟨g, start, final, m, hchecked, hstart, hrun, hm, hall⟩
  · rw [hsplit, List.nodup_append] at hdistinct
    exact absurd rfl (hdistinct.2.2 v hv v List.mem_cons_self)

/-- An output that is named twice is reported as missing, although its tensor has been computed. -/
theorem repeated_missing : ∃ g start final t, (delivering ["y", "y"]).checked = .ok g ∧
    Supplies deliveringInput g.inputs ∧ initialContext g deliveringInput = .ok start ∧
    g.nodes.foldlM runNode start = .ok final ∧ final["y"]? = some t ∧
    g.execute deliveringInput = .error (.missingOutput "y") :=
  ⟨_, _, _, _, rfl, by decide +kernel, rfl, rfl, rfl, rfl⟩

end ConvFlow.Execution
