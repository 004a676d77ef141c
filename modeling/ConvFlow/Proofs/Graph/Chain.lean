/-
# Chains of nodes

A node computes from those of its operands that are no constants.  A list of nodes is a `Chain`
from one value to another if every node computes from a single value, the first one from the value
at the start and each of the others from the result of the node in front of it, and the last node
writes the value at the end.

The nodes of a chain can be ordered in one way only (`Chain.eq_of_perm`), and nobody but the next
node reads the result of a node (`Chain.unread`).
-/
import ConvFlow.Proofs.Graph.WellFormed

namespace ConvFlow.Graph

variable {α : Type} {g h : Graph α} {a b v : String} {n c : Node} {known : Set String}
  {nodes xs ys : List Node}

/-- The operands of a node that are no constants. -/
def computedInputs (g : Graph α) (n : Node) : List String :=
  n.inputs.filter fun v => !g.isInitializer v

lemma mem_computedInputs_iff :
    v ∈ g.computedInputs n ↔ v ∈ n.inputs ∧ g.isInitializer v = false := by
  rw [computedInputs, List.mem_filter, Bool.not_eq_true']

/-- The nodes lead from the value `a` to the value `b`. -/
def Chain (g : Graph α) : String → List Node → String → Prop
  | a, [], b => a = b
  | a, n :: rest, b => g.computedInputs n = [a] ∧ Chain g n.result rest b

instance decidableChain (g : Graph α) :
    (a : String) → (nodes : List Node) → (b : String) → Decidable (g.Chain a nodes b)
  | a, [], b => inferInstanceAs (Decidable (a = b))
  | a, n :: rest, b =>
    have := decidableChain g n.result rest b
    inferInstanceAs (Decidable (g.computedInputs n = [a] ∧ g.Chain n.result rest b))

namespace Chain

lemma append_iff : g.Chain a (xs ++ ys) b ↔ ∃ v, g.Chain a xs v ∧ g.Chain v ys b := by
  induction xs generalizing a with
  | nil => simp [Chain]
  | cons n xs ih => simp only [List.cons_append, Chain, ih, and_assoc, exists_and_left]

/-- A chain depends on the constants only by what its nodes compute from. -/
lemma congr (hsame : ∀ n ∈ nodes, h.computedInputs n = g.computedInputs n)
    (hchain : g.Chain a nodes b) : h.Chain a nodes b := by
  induction nodes generalizing a with
  | nil => exact hchain
  | cons n nodes ih =>
    obtain ⟨hn, hnodes⟩ := List.forall_mem_cons.1 hsame
    exact ⟨hn.trans hchain.1, ih hnodes hchain.2⟩

/-- A node computes from the value at the start or from the result of another node. -/
lemma known_of_mem (hchain : g.Chain a nodes b) (hn : n ∈ nodes) (hv : v ∈ g.computedInputs n) :
    v = a ∨ v ∈ written nodes := by
  induction nodes generalizing a with
  | nil => exact absurd hn List.not_mem_nil
  | cons m nodes ih =>
    obtain ⟨hm, hrest⟩ := hchain
    rw [written_cons]
    rcases List.mem_cons.1 hn with rfl | hn
    · rw [hm, List.mem_singleton] at hv
      exact Or.inl hv
    · exact Or.inr (ih hrest hn)

/-- The last node of a chain writes the value at its end. -/
lemma exists_last (hchain : g.Chain a nodes b) (hsome : nodes ≠ []) :
    ∃ n, nodes.getLast? = some n ∧ n.result = b := by
  obtain ⟨rest, n, rfl⟩ := (List.eq_nil_or_concat' nodes).resolve_left hsome
  obtain ⟨v, -, -, hresult⟩ := append_iff.1 hchain
  exact ⟨n, by simp, hresult⟩

lemma last_mem (hchain : g.Chain a nodes b) : b = a ∨ b ∈ written nodes := by
  by_cases hempty : nodes = []
  · subst hempty
    exact Or.inl hchain.symm
  · obtain ⟨n, hn, rfl⟩ := hchain.exists_last hempty
    exact Or.inr (result_mem_written (List.mem_of_getLast? hn))

/-- **The nodes of a chain come in one order only.**  A node other than the first one would come
before what it reads has been written. -/
theorem eq_of_perm (hordered : Ordered known nodes) (hperm : nodes.Perm xs)
    (hchain : g.Chain a xs b) : nodes = xs := by
  induction xs generalizing a known nodes with
  | nil => exact hperm.eq_nil
  | cons n xs ih =>
    obtain ⟨hn, hrest⟩ := hchain
    cases nodes with
    | nil => exact absurd hperm.symm.eq_nil (List.cons_ne_nil _ _)
    | cons m nodes =>
      obtain rfl : m = n := by
        by_contra hne
        have hm : m ∈ xs := by
          have hmem : m ∈ n :: xs := hperm.mem_iff.1 List.mem_cons_self
          exact (List.mem_cons.1 hmem).resolve_left hne
        obtain ⟨v, hv⟩ : ∃ v, v ∈ g.computedInputs m := by
          obtain ⟨before, after, rfl⟩ := List.append_of_mem hm
          obtain ⟨v, -, hfirst, -⟩ := append_iff.1 hrest
          exact ⟨v, by rw [hfirst]; exact List.mem_singleton_self v⟩
        -- The node reads a result, which no node has written yet.
        have hwritten : v ∈ written (m :: nodes) := by
          rw [written_perm hperm, written_cons]
          exact hrest.known_of_mem hm hv
        exact hordered.notMem_written (hordered.1 v (mem_computedInputs_iff.1 hv).1) hwritten
      rw [ih hordered.2.2 hperm.cons_inv hrest]

/-- The result of a node is read by the next node and by no other one, and it is not the end of
the chain behind that node. -/
lemma unread (hordered : Ordered known (xs ++ n :: c :: ys)) (hchain : g.Chain c.result ys b)
    (hresult : g.isInitializer n.result = false) :
    n.result ≠ b ∧ ∀ m ∈ xs ++ ys, n.result ∉ m.inputs := by
  obtain ⟨-, -, -, hrest⟩ := Ordered.append_iff.1 hordered
  have hnew : n.result ∉ written (c :: ys) := hrest.notMem_written (Set.mem_insert _ _)
  rw [written_cons, Set.mem_insert_iff, not_or] at hnew
  refine ⟨?_, fun m hm hread => ?_⟩
  · intro heq
    exact (heq ▸ hchain.last_mem).elim hnew.1 hnew.2
  · rcases List.mem_append.1 hm with hm | hm
    · -- A node in front would read what has not been written yet.
      obtain ⟨before, after, rfl⟩ := List.append_of_mem hm
      rw [List.append_assoc, List.cons_append] at hordered
      exact hordered.notMem_written_of_reads hread (by simp)
    · exact (hchain.known_of_mem hm (mem_computedInputs_iff.2 ⟨hread, hresult⟩)).elim
        hnew.1 hnew.2

end Chain

end ConvFlow.Graph
