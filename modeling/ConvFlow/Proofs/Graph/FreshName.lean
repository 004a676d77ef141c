/-
# The search for a free name

A new constant gets a name that nothing in the graph has.  The candidates are the names derived
from a base name by a number, and they are looked at one after another until one is not in use;
`Search` is this search, without a bound on the number of candidates.  It ends
(`search_iff_of_isLeast`, `exists_isLeast`) because different numbers give different names
(`derivedName_injective`), of which only finitely many are in use: after as many candidates as
there are names in use at the latest, the next one is free (`le_card_of_inUse`).

`Graph.freshName` is the name that the search finds (`freshName_eq_of_isLeast`).  The search does
not look at the declared outputs, but in a well-formed graph these are in use already
(`WellFormed.mentions_iff`).
-/
import Mathlib.Data.Set.Card
import Mathlib.Order.Nat
import Std.Data.String.ToNat
import ConvFlow.Proofs.Graph.WellFormed

namespace ConvFlow.Graph

variable {α : Type} {g : Graph α} {base : String} {k : Nat}

/-! ## Names that stand in a graph -/

/-- The name stands in the graph: as an input, an output or a constant of the graph, or as an
operand or a result of a node. -/
def Mentions (g : Graph α) (v : String) : Prop :=
  g.isInput v = true ∨ g.isOutput v = true ∨ g.isInitializer v = true ∨
    ∃ n ∈ g.nodes, v ∈ n.inputs ∨ v ∈ n.outputs

lemma mem_namesInUse_iff {v : String} : v ∈ g.namesInUse ↔
    g.isInput v = true ∨ g.isInitializer v = true ∨ ∃ n ∈ g.nodes, v ∈ n.inputs ∨ v ∈ n.outputs := by
  rw [namesInUse, List.mem_append, mem_sources_iff, isInitializer_iff, or_assoc]
  simp only [List.mem_flatMap, List.mem_append]

lemma mentions_input {d : ValueDecl} (hd : d ∈ g.inputs) : g.Mentions d.name :=
  Or.inl (List.any_eq_true.2 ⟨d, hd, by simp⟩)

lemma mentions_output {v : String} (hv : v ∈ g.outputs) : g.Mentions v :=
  Or.inr (Or.inl (by simpa [isOutput] using hv))

lemma mentions_operand {n : Node} (hn : n ∈ g.nodes) {v : String} (hv : v ∈ n.inputs) :
    g.Mentions v :=
  Or.inr (Or.inr (Or.inr ⟨n, hn, Or.inl hv⟩))

lemma mentions_source {v : String} (hv : v ∈ g.sources) : g.Mentions v := by
  rcases mem_sources_iff.1 hv with hinput | hconst
  · exact Or.inl hinput
  · exact Or.inr (Or.inr (Or.inl (isInitializer_iff.2 hconst)))

lemma WellFormed.mentions_written (hg : g.WellFormed) {v : String} (hv : v ∈ written g.nodes) :
    g.Mentions v := by
  obtain ⟨n, hn, rfl⟩ := hv
  exact Or.inr (Or.inr (Or.inr ⟨n, hn, Or.inr (hg.arity n hn).result_mem⟩))

/-- A name that stands nowhere is none of those that stand in the graph. -/
lemma Mentions.ne {v name : String} (hv : g.Mentions v) (hnew : ¬g.Mentions name) : name ≠ v := by
  rintro rfl
  exact hnew hv

/-- In a well-formed graph the outputs are names in use. -/
lemma WellFormed.mentions_iff (hg : g.WellFormed) {v : String} :
    g.Mentions v ↔ v ∈ g.namesInUse := by
  have houtput (h : g.isOutput v = true) : v ∈ g.namesInUse := by
    -- An output is a source or the result of a node.
    rcases hg.outputs v (by simpa [isOutput] using h) with hsource | ⟨n, hn, rfl⟩
    · exact List.mem_append_left _ hsource
    · exact mem_namesInUse_iff.2 (Or.inr (Or.inr ⟨n, hn, Or.inr (hg.arity n hn).result_mem⟩))
  rw [mem_namesInUse_iff] at houtput ⊢
  constructor
  · rintro (hinput | hout | hrest)
    · exact Or.inl hinput
    · exact houtput hout
    · exact Or.inr hrest
  · rintro (hinput | hrest)
    · exact Or.inl hinput
    · exact Or.inr (Or.inr hrest)

lemma WellFormed.ncard_mentions (hg : g.WellFormed) :
    {v | g.Mentions v}.ncard = g.namesInUse.toFinset.card := by
  have hset : {v | g.Mentions v} = (g.namesInUse.toFinset : Set String) := by
    ext v
    simp [hg.mentions_iff]
  rw [hset, Set.ncard_coe_finset]

/-! ## Enough candidates -/

lemma derivedName_injective (base : String) {k l : Nat}
    (h : derivedName base k = derivedName base l) : k = l := by
  have happend (k : Nat) : derivedName base k = base ++ "_" ++ Nat.repr k := by
    simp [derivedName, toString]
  rw [happend, happend, String.append_right_inj] at h
  exact Nat.repr_injective h

/-- There are no more candidates in use than names in use. -/
lemma le_card_of_inUse (h : ∀ j < k, derivedName base j ∈ g.namesInUse) :
    k ≤ g.namesInUse.toFinset.card := by
  rw [← Finset.card_range k]
  refine Finset.card_le_card_of_injOn (derivedName base) ?_ ?_
  · intro j hj
    simpa using h j (by simpa using hj)
  · intro i _ j _ heq
    exact derivedName_injective base heq

/-- One of the candidates is the first that is free. -/
lemma exists_isLeast (g : Graph α) (base : String) :
    ∃ k, IsLeast {j | derivedName base j ∉ g.namesInUse} k := by
  have hfree : ∃ j, derivedName base j ∉ g.namesInUse := by
    by_contra hall
    simp only [not_exists, not_not] at hall
    have hle := le_card_of_inUse (k := g.namesInUse.toFinset.card + 1) fun j _ => hall j
    omega
  exact ⟨Nat.find hfree, Nat.isLeast_find hfree⟩

lemma inUse_of_isLeast (h : IsLeast {j | derivedName base j ∉ g.namesInUse} k) {j : Nat}
    (hj : j < k) : derivedName base j ∈ g.namesInUse := by
  by_contra hfree
  have hle : k ≤ j := h.2 hfree
  omega

/-! ## The search -/

/-- The search from a number on looks at so many candidates, and finds the name. -/
inductive Search (g : Graph α) (base : String) : Nat → Nat → String → Prop
  /-- A candidate that is not in use is found. -/
  | free {k : Nat} (h : derivedName base k ∉ g.namesInUse) : Search g base k 1 (derivedName base k)
  /-- Behind a candidate in use the search goes on with the next number. -/
  | taken {k tries : Nat} {name : String} (h : derivedName base k ∈ g.namesInUse)
    (rest : Search g base (k + 1) tries name) : Search g base k (tries + 1) name

/-- The search goes through the candidates in use. -/
lemma search_of_inUse {start : Nat} (hfree : derivedName base (start + k) ∉ g.namesInUse)
    (hused : ∀ j < k, derivedName base (start + j) ∈ g.namesInUse) :
    Search g base start (k + 1) (derivedName base (start + k)) := by
  induction k generalizing start with
  | zero => exact .free hfree
  | succ k ih =>
    -- Behind the first candidate the same search goes on from the next number.
    have hshift (j : Nat) : start + (j + 1) = start + 1 + j := by omega
    rw [hshift] at hfree ⊢
    refine .taken (hused 0 (Nat.succ_pos k)) (ih hfree ?_)
    intro j hj
    rw [← hshift]
    exact hused (j + 1) (by omega)

/-- There is only one way for the search to go. -/
lemma Search.unique {start tries tries' : Nat} {name name' : String}
    (h : Search g base start tries name) (h' : Search g base start tries' name') :
    tries = tries' ∧ name = name' := by
  induction h generalizing tries' name' with
  | free hfree =>
    cases h' with
    | free => exact ⟨rfl, rfl⟩
    | taken hused => exact absurd hused hfree
  | taken hused _ ih =>
    cases h' with
    | free hfree => exact absurd hused hfree
    | taken _ rest' =>
      obtain ⟨rfl, rfl⟩ := ih rest'
      exact ⟨rfl, rfl⟩

/-- **The search ends with the first candidate that is free, and looks at none behind it.** -/
theorem search_iff_of_isLeast (h : IsLeast {j | derivedName base j ∉ g.namesInUse} k) {tries : Nat}
    {name : String} : Search g base 0 tries name ↔ tries = k + 1 ∧ name = derivedName base k := by
  have hsearch : Search g base 0 (k + 1) (derivedName base (0 + k)) := by
    refine search_of_inUse ?_ ?_
    · rw [Nat.zero_add]
      exact h.1
    · intro j hj
      rw [Nat.zero_add]
      exact inUse_of_isLeast h hj
  rw [Nat.zero_add] at hsearch
  constructor
  · intro hother
    exact hother.unique hsearch
  · rintro ⟨rfl, rfl⟩
    exact hsearch

/-! ## The name that is found -/

/-- The fresh name is the first candidate that is free. -/
lemma freshName_eq_of_isLeast (h : IsLeast {j | derivedName base j ∉ g.namesInUse} k) :
    g.freshName base = derivedName base k := by
  have hbound : k < g.namesInUse.length + 1 := by
    have hcard := le_card_of_inUse fun j hj => inUse_of_isLeast h hj
    have hlength := g.namesInUse.toFinset_card_le
    omega
  have hfind : ((List.range (g.namesInUse.length + 1)).find? fun j =>
      !g.namesInUse.contains (derivedName base j)) = some k := by
    rw [List.find?_range_eq_some]
    refine ⟨by simpa using h.1, by simpa using hbound, ?_⟩
    intro j hj
    simpa using inUse_of_isLeast h hj
  rw [freshName, hfind, Option.getD_some]

/-- A fresh name is not in use. -/
theorem freshName_notMem (g : Graph α) (base : String) : g.freshName base ∉ g.namesInUse := by
  obtain ⟨k, hk⟩ := exists_isLeast g base
  rw [freshName_eq_of_isLeast hk]
  exact hk.1

/-- In a well-formed graph a fresh name stands nowhere. -/
lemma WellFormed.not_mentions_freshName (hg : g.WellFormed) (base : String) :
    ¬g.Mentions (g.freshName base) := by
  rw [hg.mentions_iff]
  exact freshName_notMem g base

/-- An output that nothing provides is not in use. -/
example : (⟨"loose", [], ["a_0"], [], ∅, ∅⟩ : Graph Nat).freshName "a" = "a_0" := by
  decide +kernel

end ConvFlow.Graph
