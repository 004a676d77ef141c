/-
# What sorting does to a graph

Sorting only reorders the nodes (`perm_of_sorted`).  It always takes the first node that could come
next, so it leaves the nodes of a well-formed graph in their order (`WellFormed.sorted`).
A checked graph therefore stays as it is when it is checked once more (`checked_again`).

Taking a node early never spoils the order of the others (`Ordered.erase`), so the sort finds an
order whenever there is one (`exists_sorted`).  A graph can be checked exactly if some order of its
nodes makes it a checked graph (`exists_checked_iff`), and all such orders give its values the same
shapes (`IsChecked.valueShapes_eq`).
-/
import ConvFlow.Proofs.Graph.Shapes

namespace ConvFlow

open Outcome

namespace Graph

variable {α : Type} {g h : Graph α}

/-! ## Reordering -/

/-- The entry taken is the first one that passes the test. -/
lemma takeFirst_eq_some_iff {β : Type} {test : β → Bool} {l rest : List β} {b : β} :
    takeFirst test l = some (b, rest) ↔
      ∃ before after, l = before ++ b :: after ∧ rest = before ++ after ∧ test b = true ∧
        ∀ c ∈ before, test c = false := by
  induction l generalizing rest with
  | nil => simp [takeFirst]
  | cons a l ih =>
    rw [takeFirst]
    constructor
    · intro htake
      split at htake
      · rename_i ha
        obtain ⟨rfl, rfl⟩ := Prod.mk.inj (Option.some.inj htake)
        exact ⟨[], l, rfl, rfl, ha, fun c hc => absurd hc List.not_mem_nil⟩
      · rename_i ha
        obtain ⟨⟨c, cs⟩, hcs, heq⟩ := Option.map_eq_some_iff.1 htake
        obtain ⟨rfl, rfl⟩ := Prod.mk.inj heq
        obtain ⟨before, after, rfl, rfl, hb, hbefore⟩ := ih.1 hcs
        exact ⟨a :: before, after, rfl, rfl, hb,
          List.forall_mem_cons.2 ⟨Bool.eq_false_iff.2 ha, hbefore⟩⟩
    · rintro ⟨before, after, hsplit, rfl, hb, hbefore⟩
      cases before with
      | nil =>
        obtain ⟨rfl, rfl⟩ := List.cons.inj hsplit
        rw [if_pos hb]
        rfl
      | cons c before =>
        obtain ⟨rfl, rfl⟩ := List.cons.inj hsplit
        obtain ⟨ha, hbefore⟩ := List.forall_mem_cons.1 hbefore
        rw [ha, ih.2 ⟨before, after, rfl, rfl, hb, hbefore⟩]
        rfl

lemma perm_of_takeFirst {β : Type} {test : β → Bool} {l rest : List β} {b : β}
    (htake : takeFirst test l = some (b, rest)) : (b :: rest).Perm l := by
  obtain ⟨before, after, rfl, rfl, -, -⟩ := takeFirst_eq_some_iff.1 htake
  exact List.perm_middle.symm

/-- A list in which nothing of a kind stands behind something that is not of this kind begins with
the entries of this kind. -/
lemma exists_append_of_pairwise {β : Type} {q : β → Prop} {l : List β}
    (h : l.Pairwise fun a b => q b → q a) :
    ∃ xs ys, l = xs ++ ys ∧ (∀ b ∈ xs, q b) ∧ ∀ b ∈ ys, ¬q b := by
  induction l with
  | nil => exact ⟨[], [], rfl, by simp, by simp⟩
  | cons b l ih =>
    obtain ⟨hb, hl⟩ := List.pairwise_cons.1 h
    by_cases hq : q b
    · obtain ⟨xs, ys, rfl, hxs, hys⟩ := ih hl
      exact ⟨b :: xs, ys, rfl, List.forall_mem_cons.2 ⟨hq, hxs⟩, hys⟩
    · refine ⟨[], b :: l, rfl, by simp, List.forall_mem_cons.2 ⟨hq, fun c hc hc' => ?_⟩⟩
      exact hq (hb c hc hc')

/-- The nodes that are placed and those that are stuck are the nodes that were pending. -/
lemma perm_of_place (available : List String) (rounds : Nat) (pending : List Node) :
    ((place available rounds pending).1 ++ (place available rounds pending).2).Perm pending := by
  induction rounds generalizing available pending with
  | zero => exact .refl _
  | succ rounds ih =>
    rw [place]
    cases htake : takeFirst (fun n => n.inputs.all available.contains) pending with
    | none => exact .refl _
    | some found =>
      have hrest := ih (found.1.outputs ++ available) found.2
      exact (hrest.cons found.1).trans (perm_of_takeFirst htake)

lemma sorted_eq_ok_iff : g.sorted = .ok h ↔ g.sort = (h, .ok ()) := by
  rw [sorted]
  rcases g.sort with ⟨k, e | ⟨⟩⟩
  · simp
  · simp

/-- The sort succeeds if both checks pass and no node gets stuck, and leaves the nodes as they were
placed. -/
lemma sort_eq_ok_iff : g.sort = (h, .ok ()) ↔
    g.checkProducers = .ok () ∧ g.checkReads = .ok () ∧
      (place g.sources g.nodes.length g.nodes).2 = [] ∧
      h = { g with nodes := (place g.sources g.nodes.length g.nodes).1 } := by
  rw [sort]
  cases hproducers : g.checkProducers with
  | error e => simp
  | ok _ =>
    cases hreads : g.checkReads with
    | error e => simp
    | ok _ =>
      generalize place g.sources g.nodes.length g.nodes = found
      obtain ⟨placed, stuck⟩ := found
      cases stuck with
      | nil => simp [eq_comm]
      | cons n rest => simp

/-- **Sorting only reorders the nodes.** -/
theorem perm_of_sorted (hsorted : g.sorted = .ok h) :
    h.nodes.Perm g.nodes ∧ h = { g with nodes := h.nodes } := by
  obtain ⟨-, -, hstuck, rfl⟩ := sort_eq_ok_iff.1 (sorted_eq_ok_iff.1 hsorted)
  have hperm := perm_of_place g.sources g.nodes.length g.nodes
  rw [hstuck, List.append_nil] at hperm
  exact ⟨hperm, rfl⟩

/-! ## Nodes that are ordered already -/

/-- No read is dangling if every value read is a source or a result. -/
lemma checkReads_eq_ok_iff :
    g.checkReads = .ok () ↔ ∀ n ∈ g.nodes, ∀ v ∈ n.inputs, v ∈ g.sources ∨ v ∈ g.results := by
  have hnone : (g.nodes.findSome? fun n =>
      (n.inputs.find? fun v => !(g.sources ++ g.results).contains v).map fun v =>
        Error.danglingReference n.name v) = none ↔
      ∀ n ∈ g.nodes, ∀ v ∈ n.inputs, v ∈ g.sources ∨ v ∈ g.results := by
    simp only [List.findSome?_eq_none_iff, Option.map_eq_none_iff, List.find?_eq_none,
      Bool.not_eq_true', Bool.not_eq_false, List.contains_iff_mem, List.mem_append]
  rw [← hnone, checkReads]
  split
  · rename_i e hsome
    exact iff_of_false (by simp) fun hfree => nomatch hfree.symm.trans hsome
  · rename_i hfree
    exact iff_of_true rfl hfree

/-- Ordered nodes read what is known at the start or written by one of them. -/
lemma Ordered.known_of_reads {known : Set String} {nodes : List Node} (h : Ordered known nodes)
    {n : Node} (hn : n ∈ nodes) {v : String} (hv : v ∈ n.inputs) :
    v ∈ known ∪ written nodes := by
  obtain ⟨xs, ys, rfl⟩ := List.append_of_mem hn
  obtain ⟨-, hreads, -⟩ := Ordered.append_iff.1 h
  rw [written_append]
  exact (hreads v hv).imp_right Or.inl

/-- A node is ready if all of its operands are available. -/
lemma isReady_iff {available : List String} {n : Node} :
    (n.inputs.all available.contains) = true ↔ ∀ v ∈ n.inputs, v ∈ available := by
  simp [List.all_eq_true]

/-- A node that is placed makes its result available. -/
lemma available_insert {n : Node} (hn : n.FitsArity) (available : List String) :
    {v | v ∈ n.outputs ++ available} = insert n.result {v | v ∈ available} := by
  ext v
  simp [hn.results]

/-- Of ordered nodes the first one can always be placed. -/
lemma place_of_ordered {available : List String} {nodes : List Node}
    (h : Ordered {v | v ∈ available} nodes) (harity : ∀ n ∈ nodes, n.FitsArity) :
    place available nodes.length nodes = (nodes, []) := by
  induction nodes generalizing available with
  | nil => rfl
  | cons n rest ih =>
    obtain ⟨hreads, -, hrest⟩ := h
    obtain ⟨hn, harity⟩ := List.forall_mem_cons.1 harity
    rw [← available_insert hn] at hrest
    rw [List.length_cons, place, takeFirst, if_pos (isReady_iff.2 hreads)]
    simp only [ih hrest harity]

namespace WellFormed

lemma checkProducers (hg : g.WellFormed) : g.checkProducers = .ok () := by
  have hvalid := validate_eq_ok_iff.2 hg
  rw [validate, check_bind_eq_ok_iff] at hvalid
  exact hvalid.1

lemma checkReads (hg : g.WellFormed) : g.checkReads = .ok () := by
  refine checkReads_eq_ok_iff.2 fun n hn v hv => ?_
  refine (hg.ordered.known_of_reads hn hv).imp_right ?_
  rintro ⟨k, hk, hresult⟩
  rw [results, List.mem_flatMap]
  exact ⟨k, hk, hresult ▸ (hg.arity k hk).result_mem⟩

/-- **A well-formed graph is sorted.** -/
theorem sorted (hg : g.WellFormed) : g.sorted = .ok g := by
  have hplace := place_of_ordered hg.ordered hg.arity
  rw [sorted_eq_ok_iff, sort_eq_ok_iff, hplace]
  exact ⟨hg.checkProducers, hg.checkReads, rfl, rfl⟩

end WellFormed

/-- Checking a graph that has been checked finds the same graph, whatever shapes were recorded. -/
lemma IsChecked.checked_withShapes (hg : g.IsChecked) (shapes : NameMap Shape) :
    { g with valueShapes := shapes }.checked = .ok g := by
  have hwf := hg.wellFormed.withShapes shapes
  have hinfer : { g with valueShapes := shapes }.inferShapes = g.inferShapes := rfl
  rw [checked, hwf.sorted, ok_bind, validate_eq_ok_iff.2 hwf, ok_bind, hinfer, hg.inferShapes]
  rfl

/-- **Checking twice is checking once.** -/
theorem checked_again (hchecked : g.checked = .ok h) : h.checked = .ok h :=
  (isChecked_of_checked hchecked).checked_withShapes h.valueShapes

/-! ## Nodes that can be ordered

The nodes of a graph may be listed in any order; what matters is that some order of them suits. -/

/-- A node whose operands are known can be taken out of ordered nodes and placed before them. -/
lemma Ordered.erase {known : Set String} {nodes : List Node} (h : Ordered known nodes) {n : Node}
    (hn : n ∈ nodes) (hread : ∀ v ∈ n.inputs, v ∈ known) :
    n.result ∉ known ∧ Ordered (insert n.result known) (nodes.erase n) := by
  induction nodes generalizing known with
  | nil => simp at hn
  | cons k rest ih =>
    obtain ⟨hreads, hnew, hrest⟩ := h
    by_cases heq : k = n
    · subst heq
      rw [List.erase_cons_head]
      exact ⟨hnew, hrest⟩
    · have hmem : n ∈ rest := (List.mem_cons.1 hn).resolve_left (Ne.symm heq)
      obtain ⟨hnotin, hlater⟩ :=
        ih hrest hmem fun v hv => Set.mem_insert_of_mem _ (hread v hv)
      rw [Set.mem_insert_iff, not_or] at hnotin
      rw [List.erase_cons_tail (by simpa using heq)]
      refine ⟨hnotin.2, fun v hv => Set.mem_insert_of_mem _ (hreads v hv), ?_, ?_⟩
      -- The later node writes another name, so the earlier one still writes an unknown name.
      · rw [Set.mem_insert_iff, not_or]
        exact ⟨Ne.symm hnotin.1, hnew⟩
      · rw [Set.insert_comm]
        exact hlater

lemma takeFirst_eq_none_iff {β : Type} {test : β → Bool} {l : List β} :
    takeFirst test l = none ↔ ∀ b ∈ l, test b = false := by
  induction l with
  | nil => simp [takeFirst]
  | cons a l ih =>
    rw [takeFirst, List.forall_mem_cons, ← ih]
    cases test a <;> simp

/-- Of nodes that can be ordered none gets stuck, and they are placed in order.  The first node of
any order is ready, and whichever ready node is taken, the others can still be ordered. -/
lemma place_of_perm {available : List String} {pending nodes : List Node}
    (hperm : nodes.Perm pending) (hordered : Ordered {v | v ∈ available} nodes)
    (harity : ∀ n ∈ nodes, n.FitsArity) :
    (place available pending.length pending).2 = [] ∧
      Ordered {v | v ∈ available} (place available pending.length pending).1 := by
  induction hlength : pending.length generalizing available pending nodes with
  | zero =>
    obtain rfl := List.eq_nil_of_length_eq_zero hlength
    exact ⟨rfl, trivial⟩
  | succ rounds ih =>
    rw [place]
    cases htake : takeFirst (fun n => n.inputs.all available.contains) pending with
    | none =>
      exfalso
      cases nodes with
      | nil =>
        rw [List.nil_perm.1 hperm] at hlength
        simp at hlength
      | cons n rest =>
        have hwaits := takeFirst_eq_none_iff.1 htake n (hperm.mem_iff.1 List.mem_cons_self)
        rw [isReady_iff.2 hordered.1] at hwaits
        exact Bool.noConfusion hwaits
    | some found =>
      obtain ⟨n, rest⟩ := found
      have hrest : (n :: rest).Perm pending := perm_of_takeFirst htake
      have hmem : n ∈ nodes := hperm.mem_iff.2 (hrest.mem_iff.1 List.mem_cons_self)
      obtain ⟨-, -, -, -, htest, -⟩ := takeFirst_eq_some_iff.1 htake
      have hready : ∀ v ∈ n.inputs, v ∈ available := isReady_iff.1 htest
      have hknown := available_insert (harity n hmem) available
      obtain ⟨hnew, hothers⟩ := hordered.erase hmem hready
      rw [← hknown] at hothers
      have hperm' : (nodes.erase n).Perm rest :=
        ((List.perm_cons_erase hmem).symm.trans (hperm.trans hrest.symm)).cons_inv
      have hlength' : rest.length = rounds := by
        have hcount := hrest.length_eq
        rw [List.length_cons, hlength] at hcount
        omega
      obtain ⟨hstuck, hplaced⟩ :=
        ih hperm' hothers (fun k hk => harity k (List.mem_of_mem_erase hk)) hlength'
      rw [hknown] at hplaced
      exact ⟨hstuck, hready, hnew, hplaced⟩

/-- The second graph is the first one with its nodes in another order, whatever shapes the two
record. -/
structure Reordered (g h : Graph α) : Prop where
  nodes : h.nodes.Perm g.nodes
  name : h.name = g.name
  inputs : h.inputs = g.inputs
  outputs : h.outputs = g.outputs
  initializers : h.initializers = g.initializers

namespace Reordered

variable {k : Graph α}

lemma of_perm {nodes : List Node} (hperm : nodes.Perm g.nodes) :
    Reordered g { g with nodes := nodes } :=
  ⟨hperm, rfl, rfl, rfl, rfl⟩

lemma symm (h' : Reordered g h) : Reordered h g :=
  ⟨h'.nodes.symm, h'.name.symm, h'.inputs.symm, h'.outputs.symm, h'.initializers.symm⟩

lemma trans (hgh : Reordered g h) (hhk : Reordered h k) : Reordered g k :=
  ⟨hhk.nodes.trans hgh.nodes, hhk.name.trans hgh.name, hhk.inputs.trans hgh.inputs,
    hhk.outputs.trans hgh.outputs, hhk.initializers.trans hgh.initializers⟩

lemma sources (h' : Reordered g h) : h.sources = g.sources := by
  rw [Graph.sources, Graph.sources, h'.inputs, h'.initializers]

lemma sourceShapes (h' : Reordered g h) : h.sourceShapes = g.sourceShapes := by
  rw [Graph.sourceShapes, Graph.sourceShapes, h'.inputs, h'.initializers]

lemma results (h' : Reordered g h) : h.results.Perm g.results :=
  h'.nodes.flatMap_right _

/-- The order of the nodes plays no role for who writes which value. -/
lemma checkProducers (h' : Reordered g h) (hg : g.checkProducers = .ok ()) :
    h.checkProducers = .ok () := by
  rw [checkProducers_eq_ok_iff, firstClash_eq_none_iff] at hg ⊢
  rw [h'.sources]
  exact ⟨h'.results.nodup_iff.2 hg.1, fun v hv => hg.2 v (h'.results.mem_iff.1 hv)⟩

/-- A well-formed graph stays so in every order of its nodes that suits their operands. -/
lemma wellFormed (h' : Reordered g h) (hg : g.WellFormed)
    (hordered : Ordered {v | v ∈ h.sources} h.nodes) : h.WellFormed := by
  refine ⟨hordered, fun n hn => ?_, fun n hn attrs hop => ?_, fun v hv => ?_⟩
  · exact hg.arity n (h'.nodes.mem_iff.1 hn)
  · obtain ⟨hsteps, hconstants⟩ := hg.conv n (h'.nodes.mem_iff.1 hn) attrs hop
    rw [← h'.initializers] at hconstants
    exact ⟨hsteps, hconstants⟩
  · rw [h'.outputs] at hv
    rw [h'.sources, written_perm h'.nodes]
    exact hg.outputs v hv

end Reordered

/-- **A graph whose nodes can be ordered is sorted.** -/
theorem exists_sorted (h' : Reordered g h) (hh : h.WellFormed) :
    ∃ k, g.sorted = .ok k ∧ Reordered g k ∧ k.WellFormed := by
  have hproducers : g.checkProducers = .ok () := h'.symm.checkProducers hh.checkProducers
  have hreads : g.checkReads = .ok () := by
    have hknown := checkReads_eq_ok_iff.1 hh.checkReads
    rw [checkReads_eq_ok_iff]
    intro n hn v hv
    rw [← h'.sources, ← h'.results.mem_iff]
    exact hknown n (h'.nodes.mem_iff.2 hn) v hv
  have hordered := hh.ordered
  rw [h'.sources] at hordered
  obtain ⟨hstuck, hplaced⟩ := place_of_perm h'.nodes hordered hh.arity
  have hsorted : g.sorted = .ok { g with nodes := (place g.sources g.nodes.length g.nodes).1 } :=
    sorted_eq_ok_iff.2 (sort_eq_ok_iff.2 ⟨hproducers, hreads, hstuck, rfl⟩)
  obtain ⟨hperm, -⟩ := perm_of_sorted hsorted
  have hreordered := Reordered.of_perm hperm
  exact ⟨_, hsorted, hreordered, (h'.symm.trans hreordered).wellFormed hh hplaced⟩

/-- Checking changes nothing but the order of the nodes and the recorded shapes. -/
lemma reordered_of_checked (hchecked : g.checked = .ok h) : Reordered g h := by
  obtain ⟨k, hsorted, hrest⟩ := bind_eq_ok_iff.1 hchecked
  obtain ⟨-, hinfer⟩ := check_bind_eq_ok_iff.1 hrest
  obtain ⟨hperm, hk⟩ := perm_of_sorted hsorted
  have hh := eq_of_inferShapes (mapError_eq_ok_iff.1 hinfer)
  rw [hh, hk]
  exact ⟨hperm, rfl, rfl, rfl, rfl⟩

/-- **A graph can be checked exactly if some order of its nodes suits.** -/
theorem exists_checked_iff :
    (∃ h, g.checked = .ok h) ↔ ∃ h, Reordered g h ∧ h.IsChecked := by
  constructor
  · rintro ⟨h, hchecked⟩
    exact ⟨h, reordered_of_checked hchecked, isChecked_of_checked hchecked⟩
  · rintro ⟨h, hreordered, hh⟩
    obtain ⟨k, hsorted, hgk, hk⟩ := exists_sorted hreordered hh.wellFormed
    have hhk : Reordered h k := hreordered.symm.trans hgk
    -- The shapes that suit the one order of the nodes suit every other one.
    have hshapes : Solves resultShape k.sourceShapes k.nodes h.valueShapes := by
      rw [hhk.sourceShapes]
      exact hh.shapes.perm hhk.nodes.symm
    have hinfer : k.inferShapes = .ok { k with valueShapes := h.valueShapes } :=
      (inferShapes_eq_ok_iff hk).2 ⟨hshapes, rfl⟩
    refine ⟨{ k with valueShapes := h.valueShapes }, ?_⟩
    rw [checked, hsorted, ok_bind, validate_eq_ok_iff.2 hk, ok_bind, hinfer]
    rfl

/-- The order of the nodes plays no role for the shapes of the values. -/
lemma IsChecked.valueShapes_eq (hg : g.IsChecked) (hh : h.IsChecked) (h' : Reordered g h) :
    h.valueShapes = g.valueShapes := by
  have hshapes : Solves resultShape g.sourceShapes g.nodes h.valueShapes := by
    rw [← h'.sourceShapes]
    exact hh.shapes.perm h'.nodes
  have hfill := fill_of_solves resultShape_readsOperands hg.wellFormed.arity
    hg.wellFormed.ordered hshapes
  have hfill' := fill_of_solves resultShape_readsOperands hg.wellFormed.arity
    hg.wellFormed.ordered hg.shapes
  exact Except.ok.inj (hfill.symm.trans hfill')

end Graph

end ConvFlow
