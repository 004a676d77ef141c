/-
# The order that sorting finds

A node depends on another one if it reads one of its results (`Graph.DependsOn`).  The sort is a
run of a greedy schedule (`Greedy`) for this relation, and what holds of greedy schedules holds of
it.  They take only what is ready, they take all that does not wait for itself, and whenever there
is a choice they take what stood first.

The main statement is `sort_greedy`.  The sort succeeds exactly if no node depends on itself,
directly or through others.  It then finds the least of all orders that the dependencies allow,
where orders are compared by the positions that the nodes had before.  Otherwise it names the nodes
that depend on such a node, in their old order.
-/
import Mathlib.Data.Fintype.EquivFin
import Mathlib.Data.List.Lex
import Mathlib.Order.Bounds.Defs
import ConvFlow.Proofs.Execution.Safety
import ConvFlow.Proofs.Graph.Order

namespace ConvFlow

/-! ## Greedy schedules -/

section Schedules

variable {ι : Type} {R : ι → ι → Prop} {done : Set ι} {i j : ι} {pending placed stuck l : List ι}

/-- All that the entry waits for is done. -/
def Ready (R : ι → ι → Prop) (done : Set ι) (i : ι) : Prop := ∀ j, R i j → j ∈ done

/-- A schedule that takes the first entry that is ready, as long as there is one: what is done at
the start, what is pending, what is placed and what stays behind. -/
inductive Greedy (R : ι → ι → Prop) : Set ι → List ι → List ι → List ι → Prop
  | stop {done : Set ι} {pending : List ι} (waits : ∀ i ∈ pending, ¬Ready R done i) :
      Greedy R done pending [] pending
  | take {done : Set ι} {before after placed stuck : List ι} {i : ι}
      (waits : ∀ j ∈ before, ¬Ready R done j) (ready : Ready R done i)
      (rest : Greedy R (insert i done) (before ++ after) placed stuck) :
      Greedy R done (before ++ i :: after) (i :: placed) stuck

/-- Every entry waits only for what is done and for entries that stand before it. -/
def Follows (R : ι → ι → Prop) : Set ι → List ι → Prop
  | _, [] => True
  | done, i :: is => Ready R done i ∧ Follows R (insert i done) is

/-- The entry waits for one that waits for itself, each directly or through others. -/
def WaitsForever (R : ι → ι → Prop) (i : ι) : Prop :=
  ∃ j, Relation.ReflTransGen R i j ∧ Relation.TransGen R j j

lemma follows_of_split
    (h : ∀ before i after, l = before ++ i :: after → ∀ j, R i j → j ∈ done ∨ j ∈ before) :
    Follows R done l := by
  induction l generalizing done with
  | nil => trivial
  | cons i l ih =>
    refine ⟨fun j hj => (h [] i l rfl j hj).resolve_right (List.not_mem_nil), ih ?_⟩
    intro before k after hl j hj
    rcases h (i :: before) k after (by rw [hl, List.cons_append]) j hj with hdone | hbefore
    · exact Or.inl (Set.mem_insert_of_mem i hdone)
    · rcases List.mem_cons.1 hbefore with rfl | hbefore
      · exact Or.inl (Set.mem_insert j done)
      · exact Or.inr hbefore

/-- What an entry waits for stands before it. -/
lemma Follows.idxOf_lt [DecidableEq ι] (h : Follows R done l) (hi : i ∈ l) (hj : R i j)
    (hnew : j ∉ done) : l.idxOf j < l.idxOf i := by
  induction l generalizing done with
  | nil => simp at hi
  | cons k l ih =>
    obtain ⟨hready, hrest⟩ := h
    have hik : i ≠ k := fun heq => hnew (hready j (heq ▸ hj))
    rw [List.idxOf_cons_ne l hik.symm]
    by_cases hjk : j = k
    · rw [hjk, List.idxOf_cons_self]
      exact Nat.succ_pos _
    · rw [List.idxOf_cons_ne l (Ne.symm hjk)]
      refine Nat.succ_lt_succ (ih hrest (List.mem_of_ne_of_mem hik hi) ?_)
      rw [Set.mem_insert_iff, not_or]
      exact ⟨hjk, hnew⟩

/-- Entries without repetition follow each other if what an entry waits for stands before it. -/
lemma follows_of_idxOf_lt [DecidableEq ι] (hnodup : l.Nodup)
    (h : ∀ i j, R i j → l.idxOf j < l.idxOf i) : Follows R done l := by
  refine follows_of_split fun before i after hl j hj => Or.inr ?_
  have hi : i ∉ before := by
    rw [hl] at hnodup
    exact fun hmem => (List.disjoint_of_nodup_append hnodup) hmem List.mem_cons_self
  by_contra hnotin
  have hlt := h i j hj
  rw [hl, List.idxOf_append_of_notMem hnotin, List.idxOf_append_of_notMem hi,
    List.idxOf_cons_self] at hlt
  omega

/-- What follows only what can be reached by taking what is ready does not wait forever. -/
lemma Follows.acc (h : Follows R done l) (hdone : ∀ i ∈ done, Acc (flip R) i) (hi : i ∈ l) :
    Acc (flip R) i := by
  induction l generalizing done with
  | nil => simp at hi
  | cons k l ih =>
    obtain ⟨hready, hrest⟩ := h
    have hk : Acc (flip R) k := .intro k fun j hj => hdone j (hready j hj)
    rcases List.mem_cons.1 hi with rfl | hi
    · exact hk
    · refine ih hrest ?_ hi
      rintro j (rfl | hj)
      · exact hk
      · exact hdone j hj

/-- Among finitely many entries, those that wait forever are those that cannot be reached by taking
what is ready. -/
lemma acc_iff_not_waitsForever [Finite ι] : Acc (flip R) i ↔ ¬WaitsForever R i := by
  constructor
  · intro hacc
    induction hacc with
    | intro i _ ih =>
      rintro ⟨j, hreach, hcycle⟩
      -- An entry on a cycle passes its waiting on to the next one.
      obtain ⟨k, hik, hkj⟩ : ∃ k, R i k ∧ Relation.ReflTransGen R k j := by
        rcases Relation.ReflTransGen.cases_head hreach with rfl | hstep
        · exact Relation.TransGen.head'_iff.1 hcycle
        · exact hstep
      exact ih k hik ⟨j, hkj, hcycle⟩
  · intro hfree
    -- On the entries that this one waits for, waiting is irreflexive, and there are finitely many.
    let Reached := {j : ι // Relation.ReflTransGen R i j}
    let r : Reached → Reached → Prop := fun j k => Relation.TransGen R k.1 j.1
    have : IsTrans Reached r := ⟨fun _ _ _ hjk hkm => hkm.trans hjk⟩
    have : Std.Irrefl r := ⟨fun j hcycle => hfree ⟨j.1, j.2, hcycle⟩⟩
    have hwf : WellFounded r := Finite.wellFounded_of_trans_of_irrefl r
    have hacc : ∀ j : Reached, Acc (flip R) j.1 := by
      intro j
      induction j using hwf.induction with
      | _ j ih => exact .intro j.1 fun k hk => ih ⟨k, j.2.tail hk⟩ (.single hk)
    exact hacc ⟨i, .refl⟩

namespace Greedy

lemma perm (h : Greedy R done pending placed stuck) : (placed ++ stuck).Perm pending := by
  induction h with
  | stop _ => exact .refl _
  | take _ _ _ ih => exact (ih.cons _).trans List.perm_middle.symm

/-- What is placed waits only for what was placed before it. -/
lemma follows (h : Greedy R done pending placed stuck) : Follows R done placed := by
  induction h with
  | stop _ => trivial
  | take _ ready _ ih => exact ⟨ready, ih⟩

/-- What stays behind waits for something that was never placed. -/
lemma exists_waits (h : Greedy R done pending placed stuck) (hi : i ∈ stuck) :
    ∃ j, R i j ∧ j ∉ done ∧ j ∉ placed := by
  induction h with
  | stop waits =>
    have hwaits := waits i hi
    rw [Ready] at hwaits
    push Not at hwaits
    obtain ⟨j, hj, hnew⟩ := hwaits
    exact ⟨j, hj, hnew, List.not_mem_nil⟩
  | take _ _ _ ih =>
    obtain ⟨j, hj, hnew, hplaced⟩ := ih hi
    rw [Set.mem_insert_iff, not_or] at hnew
    exact ⟨j, hj, hnew.2, List.not_mem_cons_of_ne_of_not_mem hnew.1 hplaced⟩

/-- What stays behind keeps its order. -/
lemma sublist (h : Greedy R done pending placed stuck) : stuck.Sublist pending := by
  induction h with
  | stop _ => exact .refl _
  | take _ _ _ ih => exact ih.trans (.append_left (List.sublist_cons_self _ _) _)

/-- Entries that follow each other are placed as they stand. -/
lemma eq_of_follows (h : Greedy R done pending placed stuck) (hfollows : Follows R done pending) :
    placed = pending ∧ stuck = [] := by
  induction h with
  | @stop done pending waits =>
    cases pending with
    | nil => exact ⟨rfl, rfl⟩
    | cons i is => exact absurd hfollows.1 (waits i List.mem_cons_self)
  | @take done before after placed stuck i waits _ _ ih =>
    cases before with
    | nil =>
      obtain ⟨rfl, rfl⟩ := ih hfollows.2
      exact ⟨rfl, rfl⟩
    | cons k before => exact absurd hfollows.1 (waits k List.mem_cons_self)

/-- Of all ways to take the pending entries one after another, the greedy one is the least. -/
lemma placed_le [LinearOrder ι] (h : Greedy R done pending placed stuck)
    (hpending : pending.Pairwise (· < ·)) {other : List ι} (hperm : other.Perm pending)
    (hother : Follows R done other) : placed ≤ other := by
  induction h generalizing other with
  | stop _ =>
    cases other with
    | nil => exact le_rfl
    | cons k rest => exact le_of_lt List.Lex.nil
  | @take done before after placed stuck i waits _ _ ih =>
    cases other with
    | nil => simp at hperm
    | cons k rest =>
      obtain ⟨hready, hrest⟩ := hother
      -- The first entry of the other way is ready, so it does not stand before the first one that
      -- the schedule finds.
      have hk : k ∈ i :: after := by
        have hmem := hperm.mem_iff.1 List.mem_cons_self
        exact (List.mem_append.1 hmem).resolve_left fun hbefore => waits k hbefore hready
      rcases List.mem_cons.1 hk with rfl | hafter
      · refine List.cons_le_cons k (ih (hpending.sublist ?_) ?_ hrest)
        · exact .append_left (List.sublist_cons_self k after) before
        · exact (hperm.trans List.perm_middle).cons_inv
      · have hsorted := (List.pairwise_append.1 hpending).2.1
        exact le_of_lt (List.Lex.rel (List.rel_of_pairwise_cons hsorted hafter))

/-- What stays behind waits forever, and what is placed does not. -/
lemma mem_stuck_iff [Finite ι] (h : Greedy R ∅ pending placed stuck) (hall : ∀ i, i ∈ pending) :
    i ∈ stuck ↔ WaitsForever R i := by
  rw [← not_iff_not, ← acc_iff_not_waitsForever]
  have hcases : ∀ j, j ∈ placed ∨ j ∈ stuck := fun j =>
    List.mem_append.1 (h.perm.mem_iff.2 (hall j))
  constructor
  · intro hi
    exact h.follows.acc (fun j hj => absurd hj (Set.notMem_empty j)) ((hcases i).resolve_right hi)
  · intro hacc
    induction hacc with
    | intro i _ ih =>
      intro hi
      obtain ⟨j, hj, -, hplaced⟩ := h.exists_waits hi
      exact ih j hj ((hcases j).resolve_left hplaced)

end Greedy

end Schedules

namespace Graph

variable {α : Type} {g : Graph α}

/-! ## Dependencies between nodes -/

/-- The first node reads a result of the second one. -/
def DependsOn (g : Graph α) (i j : Fin g.nodes.length) : Prop :=
  ∃ v ∈ (g.nodes.get i).inputs, v ∈ (g.nodes.get j).outputs

/-- No node depends on itself, directly or through others. -/
def Acyclic (g : Graph α) : Prop := ∀ i, ¬Relation.TransGen g.DependsOn i i

/-- An order of all nodes in which every node comes after the nodes that it depends on. -/
structure IsOrder (g : Graph α) (order : List (Fin g.nodes.length)) : Prop where
  perm : order.Perm (List.finRange g.nodes.length)
  later : ∀ i j, g.DependsOn i j → order.idxOf j < order.idxOf i

/-- Every value is written at most once and no source is written, and what a node reads is a source
or is written. -/
structure Linked (g : Graph α) : Prop where
  results_nodup : g.results.Nodup
  results_new : ∀ v ∈ g.results, v ∉ g.sources
  reads : ∀ n ∈ g.nodes, ∀ v ∈ n.inputs, v ∈ g.sources ∨ v ∈ g.results

lemma linked_iff : g.Linked ↔ g.checkProducers = .ok () ∧ g.checkReads = .ok () := by
  rw [checkProducers_eq_ok_iff, firstClash_eq_none_iff, checkReads_eq_ok_iff]
  exact ⟨fun h => ⟨⟨h.results_nodup, h.results_new⟩, h.reads⟩, fun h => ⟨h.1.1, h.1.2, h.2⟩⟩

lemma mem_results_iff_get {v : String} :
    v ∈ g.results ↔ ∃ j, v ∈ (g.nodes.get j).outputs := by
  rw [results, List.mem_flatMap]
  constructor
  · rintro ⟨n, hn, hv⟩
    obtain ⟨j, rfl⟩ := List.mem_iff_get.1 hn
    exact ⟨j, hv⟩
  · rintro ⟨j, hv⟩
    exact ⟨_, List.get_mem g.nodes j, hv⟩

/-- A value has only one writer. -/
lemma Linked.eq_of_outputs (hg : g.Linked) {i j : Fin g.nodes.length} {v : String}
    (hi : v ∈ (g.nodes.get i).outputs) (hj : v ∈ (g.nodes.get j).outputs) : i = j := by
  have hapart := List.pairwise_iff_get.1 (List.nodup_flatMap.1 hg.results_nodup).2
  rcases lt_trichotomy i j with hlt | heq | hlt
  · exact absurd hj (hapart i j hlt hi)
  · exact heq
  · exact absurd hi (hapart j i hlt hj)

/-! ## The sort as a greedy schedule -/

section Run

variable {available : List String} {done : Set (Fin g.nodes.length)}

/-- Its operands are available exactly when the nodes that write them are done. -/
lemma Linked.isReady_iff (hg : g.Linked)
    (havailable : ∀ v, v ∈ available ↔ v ∈ g.sources ∨ ∃ j ∈ done, v ∈ (g.nodes.get j).outputs)
    (i : Fin g.nodes.length) :
    ((g.nodes.get i).inputs.all available.contains) = true ↔ Ready g.DependsOn done i := by
  rw [Graph.isReady_iff]
  constructor
  · rintro hready j ⟨v, hread, hwritten⟩
    rcases (havailable v).1 (hready v hread) with hsource | ⟨k, hk, hv⟩
    · exact absurd hsource (hg.results_new v (mem_results_iff_get.2 ⟨j, hwritten⟩))
    · exact hg.eq_of_outputs hv hwritten ▸ hk
  · intro hready v hv
    rw [havailable]
    refine (hg.reads _ (List.get_mem g.nodes i) v hv).imp_right fun hresult => ?_
    obtain ⟨j, hj⟩ := mem_results_iff_get.1 hresult
    exact ⟨j, hready j ⟨v, hv, hj⟩, hj⟩

/-- Placing nodes is a greedy schedule of their positions. -/
lemma Linked.exists_greedy (hg : g.Linked)
    (havailable : ∀ v, v ∈ available ↔ v ∈ g.sources ∨ ∃ j ∈ done, v ∈ (g.nodes.get j).outputs)
    (pending : List (Fin g.nodes.length)) :
    ∃ placed stuck, Greedy g.DependsOn done pending placed stuck ∧
      place available pending.length (pending.map g.nodes.get) =
        (placed.map g.nodes.get, stuck.map g.nodes.get) := by
  induction hlength : pending.length generalizing available done pending with
  | zero =>
    obtain rfl := List.eq_nil_of_length_eq_zero hlength
    exact ⟨[], [], .stop (by simp), rfl⟩
  | succ rounds ih =>
    rw [place]
    cases htake : takeFirst (fun n => n.inputs.all available.contains) (pending.map g.nodes.get)
      with
    | none =>
      refine ⟨[], pending, .stop fun i hi hready => ?_, rfl⟩
      have hwaits := takeFirst_eq_none_iff.1 htake _ (List.mem_map_of_mem hi)
      rw [(hg.isReady_iff havailable i).2 hready] at hwaits
      exact Bool.noConfusion hwaits
    | some found =>
      obtain ⟨n, rest⟩ := found
      obtain ⟨before, after, hsplit, rfl, htest, hwaits⟩ := takeFirst_eq_some_iff.1 htake
      obtain ⟨xs, tail, rfl, rfl, htail⟩ := List.map_eq_append_iff.1 hsplit
      obtain ⟨i, ys, rfl, rfl, rfl⟩ := List.map_eq_cons_iff.1 htail
      have hinsert : ∀ v, v ∈ (g.nodes.get i).outputs ++ available ↔
          v ∈ g.sources ∨ ∃ j ∈ insert i done, v ∈ (g.nodes.get j).outputs := by
        intro v
        rw [List.mem_append, havailable]
        constructor
        · rintro (hv | hsource | ⟨j, hj, hv⟩)
          · exact Or.inr ⟨i, Set.mem_insert i done, hv⟩
          · exact Or.inl hsource
          · exact Or.inr ⟨j, Set.mem_insert_of_mem i hj, hv⟩
        · rintro (hsource | ⟨j, rfl | hj, hv⟩)
          · exact Or.inr (Or.inl hsource)
          · exact Or.inl hv
          · exact Or.inr (Or.inr ⟨j, hj, hv⟩)
      have hrounds : (xs ++ ys).length = rounds := by
        rw [List.length_append, List.length_cons] at hlength
        rw [List.length_append]
        omega
      obtain ⟨placed, stuck, hgreedy, hplace⟩ := ih hinsert (xs ++ ys) hrounds
      refine ⟨i :: placed, stuck, .take (fun j hj hready => ?_) ?_ hgreedy, ?_⟩
      · have hwaits := hwaits _ (List.mem_map_of_mem hj)
        rw [(hg.isReady_iff havailable j).2 hready] at hwaits
        exact Bool.noConfusion hwaits
      · exact (hg.isReady_iff havailable i).1 htest
      · rw [List.map_append] at hplace
        simp only [hplace, List.map_cons]

end Run

/-- The sort is a greedy schedule. -/
lemma Linked.sort_eq (hg : g.Linked) :
    ∃ placed stuck, Greedy g.DependsOn ∅ (List.finRange g.nodes.length) placed stuck ∧
      g.sort = ({ g with nodes := placed.map g.nodes.get ++ stuck.map g.nodes.get },
        if stuck.isEmpty then .ok ()
        else .error (.cycle (stuck.map fun i => (g.nodes.get i).name))) := by
  obtain ⟨hproducers, hreads⟩ := linked_iff.1 hg
  have havailable : ∀ v, v ∈ g.sources ↔ v ∈ g.sources ∨
      ∃ j ∈ (∅ : Set (Fin g.nodes.length)), v ∈ (g.nodes.get j).outputs := by simp
  obtain ⟨placed, stuck, hgreedy, hplace⟩ := hg.exists_greedy havailable (List.finRange _)
  refine ⟨placed, stuck, hgreedy, ?_⟩
  rw [List.length_finRange, List.map_get_finRange] at hplace
  rw [sort, hproducers, hreads]
  simp only [hplace, List.isEmpty_map, List.map_map, Function.comp_def]

/-! ## The least order -/

section Order

variable {placed stuck order : List (Fin g.nodes.length)}

lemma IsOrder.follows (h : g.IsOrder order) : Follows g.DependsOn ∅ order :=
  follows_of_idxOf_lt (h.perm.nodup_iff.2 (List.nodup_finRange _)) h.later

/-- If nothing stays behind, the greedy schedule is the least order. -/
lemma isLeast_of_greedy (h : Greedy g.DependsOn ∅ (List.finRange g.nodes.length) placed []) :
    IsLeast {order | g.IsOrder order} placed := by
  have hperm : placed.Perm (List.finRange g.nodes.length) := by
    have hperm := h.perm
    rwa [List.append_nil] at hperm
  refine ⟨⟨hperm, fun i j hj => ?_⟩, fun other hother => ?_⟩
  · exact h.follows.idxOf_lt (hperm.mem_iff.2 (List.mem_finRange i)) hj (Set.notMem_empty j)
  · exact h.placed_le (List.pairwise_lt_finRange _) hother.perm hother.follows

/-- Nothing stays behind exactly if no node depends on itself. -/
lemma stuck_eq_nil_iff (h : Greedy g.DependsOn ∅ (List.finRange g.nodes.length) placed stuck) :
    stuck = [] ↔ g.Acyclic := by
  simp only [List.eq_nil_iff_forall_not_mem, h.mem_stuck_iff List.mem_finRange]
  exact ⟨fun hfree i hi => hfree i ⟨i, .refl, hi⟩,
    fun hacyclic i hi => hi.elim fun j hj => hacyclic j hj.2⟩

end Order

/-- **The sort is greedy and complete.**  In a linked graph it succeeds exactly if no node depends
on itself.  Then it changes nothing but the order of the nodes, and finds the least order that the
dependencies allow; nodes that are ordered already stay as they are.  Otherwise it fails, naming
the nodes that depend on a node that depends on itself, in the order in which they stand. -/
theorem sort_greedy (hg : g.Linked) :
    (g.sort.2 = .ok () ↔ g.Acyclic) ∧
    (g.Acyclic → ∃ order, IsLeast {order | g.IsOrder order} order ∧
      g.sort = ({ g with nodes := order.map g.nodes.get }, .ok ())) ∧
    (g.IsOrder (List.finRange g.nodes.length) → g.sort = (g, .ok ())) ∧
    (¬g.Acyclic → ∃ stuck : List (Fin g.nodes.length), stuck.Pairwise (· < ·) ∧
      (∀ i, i ∈ stuck ↔ WaitsForever g.DependsOn i) ∧
      g.sort.2 = .error (.cycle (stuck.map fun i => (g.nodes.get i).name))) := by
  obtain ⟨placed, stuck, hgreedy, hsort⟩ := hg.sort_eq
  have hcomplete := stuck_eq_nil_iff hgreedy
  refine ⟨?_, fun hacyclic => ?_, fun horder => ?_, fun hcyclic => ?_⟩
  · rw [← hcomplete, hsort, ← List.isEmpty_iff]
    cases stuck.isEmpty <;> simp
  · obtain rfl := hcomplete.2 hacyclic
    refine ⟨placed, isLeast_of_greedy hgreedy, ?_⟩
    rw [hsort, List.map_nil, List.append_nil]
    rfl
  · obtain ⟨rfl, rfl⟩ := hgreedy.eq_of_follows horder.follows
    rw [hsort, List.map_get_finRange, List.map_nil, List.append_nil]
    rfl
  · refine ⟨stuck, (List.pairwise_lt_finRange _).sublist hgreedy.sublist,
      fun i => hgreedy.mem_stuck_iff List.mem_finRange, ?_⟩
    have hstuck : ¬stuck.isEmpty = true := fun hempty =>
      hcyclic (hcomplete.1 (List.isEmpty_iff.1 hempty))
    rw [hsort]
    exact if_neg hstuck

/-- The small graph with its nodes listed backwards. -/
def backwards : Graph Rat :=
  { Execution.smallGraph with nodes := Execution.smallGraph.nodes.reverse }

/-- The backwards graph is brought into its only order. -/
theorem backwards_sorted : backwards.Linked ∧ backwards.Acyclic ∧
    ∃ order, IsLeast {order | backwards.IsOrder order} order ∧
      backwards.sort = ({ backwards with nodes := order.map backwards.nodes.get }, .ok ()) := by
  have hlinked : backwards.Linked := linked_iff.2 ⟨rfl, rfl⟩
  obtain ⟨hsorts, hleast, -, -⟩ := sort_greedy hlinked
  have hacyclic : backwards.Acyclic := hsorts.1 (by rfl)
  exact ⟨hlinked, hacyclic, hleast hacyclic⟩

end Graph

end ConvFlow
