/-
# New constants

A constant that is stored under a name that stands nowhere in a graph takes no part in it.  The
graph stays well formed, every table that is filled along the nodes is the one of before with one
more entry (`fill_insert`), and so the inferred shapes and the delivered outputs stay the same
(`inferShapes_addConstant`, `execute_addConstant`).

The name that the search for a free name finds is of this kind.  The main statement,
`freshName_least`, is that the search ends with the least number whose name stands nowhere, after at
most one candidate more than there are names in the graph, and that a constant under this name
leaves every value that is there as it was.
-/
import ConvFlow.Proofs.Execution.Run
import ConvFlow.Proofs.Graph.FreshName

namespace ConvFlow

open Outcome

namespace Graph

variable {α : Type} {g : Graph α} {name : String} {t : Tensor α}

/-- The graph with one more constant. -/
def addConstant (g : Graph α) (name : String) (t : Tensor α) : Graph α :=
  { g with initializers := g.initializers.insert name t }

/-! ## The graph stays well formed -/

lemma getElem?_addConstant {v : String} (hne : name ≠ v) :
    (g.addConstant name t).initializers[v]? = g.initializers[v]? :=
  NameMap.getElem?_insert_of_ne hne _ _

/-- **A new constant keeps a graph well formed.** -/
theorem WellFormed.addConstant (hg : g.WellFormed) (hnew : ¬g.Mentions name) :
    (g.addConstant name t).WellFormed := by
  refine ⟨?ordered, hg.arity, ?conv, ?outputs⟩
  case ordered =>
    refine hg.ordered.of_reads (fun n _ v _ hv => mem_sources_insert.2 (Or.inr hv)) ?_
    intro v hv hwritten
    rcases mem_sources_insert.1 hv with rfl | hsource
    · exact hnew (hg.mentions_written hwritten)
    · exact hg.source_notMem_written hsource hwritten
  case conv =>
    intro n (hn : n ∈ g.nodes) attrs hop
    refine (hg.conv n hn attrs hop).congr (hg.arity n hn) hop rfl ?_
    intro i _ hi
    exact getElem?_addConstant ((mentions_operand hn (Node.operand_mem hi)).ne hnew)
  case outputs =>
    intro v hv
    exact (hg.outputs v hv).imp_left fun hsource => mem_sources_insert.2 (Or.inr hsource)

/-! ## Tables with one more entry -/

section Tables

variable {β ε : Type} {f : NameMap β → Node → Except ε β} {nodes : List Node}

/-- An entry that no node reads or writes stays beside all others. -/
lemma fill_insert (hf : ReadsOperands f) (harity : ∀ n ∈ nodes, n.FitsArity)
    (hread : ∀ n ∈ nodes, name ∉ n.inputs) (hwrite : ∀ n ∈ nodes, name ≠ n.result)
    (start : NameMap β) (b : β) :
    fill f (start.insert name b) nodes = (fill f start nodes).map (·.insert name b) := by
  refine foldlM_map (φ := fun m : NameMap β => m.insert name b) ?_ start
  intro n hn m
  have hsame : f (m.insert name b) n = f m n := by
    refine hf _ _ n (harity n hn) ?_
    intro v hv
    have hne : name ≠ v := by
      rintro rfl
      exact hread n hn hv
    exact NameMap.getElem?_insert_of_ne hne m b
  rw [hsame]
  cases f m n with
  | error e => rfl
  | ok c => exact congrArg Except.ok (NameMap.insert_comm (hwrite n hn) m b c)

/-- Where the name stands nowhere in the graph, a table that is filled gains one entry. -/
lemma WellFormed.fill_insert (hg : g.WellFormed) (hnew : ¬g.Mentions name) (hf : ReadsOperands f)
    (start : NameMap β) (b : β) :
    fill f (start.insert name b) g.nodes = (fill f start g.nodes).map (·.insert name b) := by
  refine Graph.fill_insert hf hg.arity ?_ ?_ start b
  · intro n hn hmem
    exact hnew (mentions_operand hn hmem)
  · intro n hn
    exact (hg.mentions_written (result_mem_written hn)).ne hnew

end Tables

/-! ## Inferred shapes -/

lemma sourceShapes_addConstant :
    (g.addConstant name t).sourceShapes = g.sourceShapes.insert name t.shape := by
  refine Std.ExtTreeMap.ext_getElem? ?_
  intro v
  have hdeclared : (g.addConstant name t).declaredShapes = g.declaredShapes := rfl
  rw [getElem?_sourceShapes, NameMap.getElem?_insert, getElem?_sourceShapes, hdeclared]
  by_cases hv : name = v
  · subst hv
    simp [addConstant]
  · rw [getElem?_addConstant hv, if_neg hv]

/-- The shape of the constant is recorded, and nothing else changes. -/
lemma inferShapes_addConstant (hg : g.WellFormed) (hnew : ¬g.Mentions name) :
    (g.addConstant name t).inferShapes = g.inferShapes.map fun g' =>
      { g.addConstant name t with valueShapes := g'.valueShapes.insert name t.shape } := by
  have hnodes : (g.addConstant name t).nodes = g.nodes := rfl
  rw [inferShapes, inferShapes, sourceShapes_addConstant, hnodes, foldlM_recordShape hg.arity,
    foldlM_recordShape hg.arity, hg.fill_insert hnew resultShape_readsOperands]
  cases fill resultShape g.sourceShapes g.nodes with
  | error e => rfl
  | ok shapes => rfl

end Graph

/-! ## Executions -/

namespace Execution

variable {α : Type} {given : NameMap (Tensor α)} {name : String} {t : Tensor α}

lemma bindInput_insert {d : ValueDecl} (hne : name ≠ d.name) (ctx : Context α) :
    bindInput given (ctx.insert name t) d = (bindInput given ctx d).map (·.insert name t) := by
  unfold bindInput
  split
  · rfl
  · rename_i u _
    split
    · exact congrArg Except.ok (NameMap.insert_comm hne ctx t u)
    · rfl

lemma initialContext_addConstant {g : Graph α} (hnew : ¬g.Mentions name) :
    initialContext (g.addConstant name t) given =
      (initialContext g given).map (·.insert name t) := by
  refine foldlM_map (φ := fun ctx : Context α => ctx.insert name t) ?_ g.initializers
  intro d (hd : d ∈ g.inputs) ctx
  exact bindInput_insert ((Graph.mentions_input hd).ne hnew) ctx

end Execution

namespace Graph

open Execution

variable {α : Type} [Element α] {g : Graph α} {name : String} {t : Tensor α}

/-- **A new constant changes no execution.** -/
theorem execute_addConstant (hg : g.WellFormed) (hnew : ¬g.Mentions name)
    (given : NameMap (Tensor α)) : (g.addConstant name t).execute given = g.execute given := by
  have hnodes : (g.addConstant name t).nodes = g.nodes := rfl
  have houtputs : (g.addConstant name t).outputs = g.outputs := rfl
  rw [execute, execute, initialContext_addConstant hnew, hnodes, houtputs, map_bind]
  cases initialContext g given with
  | error e => rfl
  | ok start =>
    rw [ok_bind, ok_bind, foldlM_runNode, foldlM_runNode,
      hg.fill_insert hnew runOp_readsOperands, map_bind]
    cases fill runOp start g.nodes with
    | error e => rfl
    | ok final =>
      rw [ok_bind, ok_bind]
      refine deliver_congr ?_
      intro v hv
      exact NameMap.getElem?_insert_of_ne ((mentions_output hv).ne hnew) _ _

/-! ## Constants under fresh names -/

/-- **The search for a free name ends with the least number whose name stands nowhere in the
graph.**  It looks at most at one candidate more than there are names in the graph, and a constant
under the name that it finds leaves the graph valid, and its constants, its shapes and every
execution as they were. -/
theorem freshName_least (hvalid : g.validate = .ok ()) (base : String) :
    (∃ k, IsLeast {j | ¬g.Mentions (derivedName base j)} k ∧
      g.freshName base = derivedName base k ∧
      (∀ tries name, Search g base 0 tries name ↔ tries = k + 1 ∧ name = g.freshName base) ∧
      k + 1 ≤ {v | g.Mentions v}.ncard + 1) ∧
    ∀ t : Tensor α, (g.addConstant (g.freshName base) t).validate = .ok () ∧
      (∀ v, g.Mentions v →
        (g.addConstant (g.freshName base) t).initializers[v]? = g.initializers[v]?) ∧
      (g.addConstant (g.freshName base) t).inferShapes.map (·.valueShapes) =
        g.inferShapes.map (fun g' => g'.valueShapes.insert (g.freshName base) t.shape) ∧
      ∀ given, (g.addConstant (g.freshName base) t).execute given = g.execute given := by
  have hg := validate_eq_ok_iff.1 hvalid
  obtain ⟨k, hk⟩ := exists_isLeast g base
  have hname := freshName_eq_of_isLeast hk
  have hnew := hg.not_mentions_freshName base
  refine ⟨⟨k, ?least, hname, ?search, ?bound⟩, ?constant⟩
  case least =>
    simpa only [hg.mentions_iff] using hk
  case search =>
    intro tries name
    rw [hname]
    exact search_iff_of_isLeast hk
  case bound =>
    have hcard := le_card_of_inUse fun j hj => inUse_of_isLeast hk hj
    rw [hg.ncard_mentions]
    omega
  case constant =>
    intro t
    refine ⟨validate_eq_ok_iff.2 (hg.addConstant hnew), ?_, ?_, execute_addConstant hg hnew⟩
    · intro v hv
      exact getElem?_addConstant (hv.ne hnew)
    · rw [inferShapes_addConstant hg hnew]
      cases g.inferShapes with
      | error e => rfl
      | ok g' => rfl

/-- A graph with a result, a constant and an output under the first names derived from `a`. -/
def crowded : Graph Rat where
  name := "crowded"
  inputs := [⟨"x", [1]⟩]
  outputs := ["a_2"]
  nodes := [⟨"shift", .add, ["x", "a"], ["a_0"]⟩, ⟨"clip", .relu, ["a_0"], ["a_2"]⟩]
  initializers := Std.ExtTreeMap.ofList ([
    ("a", .fill [1] 1),
    ("a_1", .fill [1] 2)] : List (String × Tensor Rat)) compare
  valueShapes := ∅

/-- The fourth candidate is the first that is free, and a constant under its name is in nobody's
way. -/
theorem crowded_least : crowded.validate = .ok () ∧ crowded.freshName "a" = "a_3" ∧
    Search crowded "a" 0 4 "a_3" ∧ (∀ j < 3, crowded.Mentions (derivedName "a" j)) ∧
    4 ≤ {v | crowded.Mentions v}.ncard + 1 ∧
    ∀ t : Tensor Rat, (crowded.addConstant "a_3" t).validate = .ok () ∧
      ∀ given, (crowded.addConstant "a_3" t).execute given = crowded.execute given := by
  have hvalid : crowded.validate = .ok () := rfl
  have hname : crowded.freshName "a" = "a_3" := by decide +kernel
  obtain ⟨⟨k, hleast, hk, hsearch, hbound⟩, hconstant⟩ := freshName_least hvalid "a"
  obtain rfl : k = 3 := derivedName_injective "a" (hk.symm.trans hname)
  rw [hname] at hsearch hconstant
  refine ⟨hvalid, hname, (hsearch 4 "a_3").2 ⟨rfl, rfl⟩, ?_, hbound, ?_⟩
  · intro j hj
    by_contra hfree
    exact absurd (hleast.2 hfree) (by omega)
  · intro t
    obtain ⟨hvalid', -, -, hexecute⟩ := hconstant t
    exact ⟨hvalid', hexecute⟩

end Graph

end ConvFlow
