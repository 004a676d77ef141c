/-
# What a sort that fails leaves behind

A sort that fails because a value has two writers or none has not moved anything.  If nodes wait
for each other, it has already taken the nodes that could be placed: they are left in front, in the
order in which they were taken, and those that wait forever follow.

The main statement is `sort_failed`.  Such a graph is as it was before only if it was listed this
way already (`StuckLast`): nodes that wait forever behind all others, and each of the others behind
the nodes that it depends on.
-/
import ConvFlow.Proofs.Graph.Sorting

namespace ConvFlow

/-! ## Schedules that end early -/

section Schedules

variable {ι : Type} {R : ι → ι → Prop} {done : Set ι} {i j : ι}
  {before after placed stuck : List ι}

/-- An entry waits forever exactly if one that it waits for does. -/
lemma waitsForever_iff : WaitsForever R i ↔ ∃ j, R i j ∧ WaitsForever R j := by
  constructor
  · rintro ⟨k, hreach, hcycle⟩
    rcases Relation.ReflTransGen.cases_head hreach with rfl | ⟨j, hij, hjk⟩
    · obtain ⟨j, hij, hji⟩ := Relation.TransGen.head'_iff.1 hcycle
      exact ⟨j, hij, i, hji, hcycle⟩
    · exact ⟨j, hij, k, hjk, hcycle⟩
  · rintro ⟨j, hij, k, hjk, hcycle⟩
    exact ⟨k, hjk.head hij, hcycle⟩

/-- Entries that follow each other are placed as they stand, if no later entry is ever placed. -/
lemma Greedy.eq_of_append (h : Greedy R done (before ++ after) placed stuck)
    (hfollows : Follows R done before) (hlate : ∀ i ∈ after, i ∉ placed) :
    placed = before ∧ stuck = after := by
  generalize hpending : before ++ after = pending at h
  induction h generalizing before with
  | @stop done pending waits =>
    cases before with
    | nil => exact ⟨rfl, hpending.symm⟩
    | cons k rest =>
      have hk : k ∈ pending := by
        rw [← hpending]
        exact List.mem_cons_self
      exact absurd hfollows.1 (waits k hk)
  | @take done passed rest placed stuck i waits ready _ ih =>
    cases before with
    | nil =>
      have hi : i ∈ after := by
        rw [List.nil_append] at hpending
        rw [hpending]
        exact List.mem_append_right _ List.mem_cons_self
      exact absurd List.mem_cons_self (hlate i hi)
    | cons k before =>
      cases passed with
      | nil =>
        obtain ⟨rfl, rfl⟩ := List.cons.inj hpending
        have hlate' : ∀ j ∈ after, j ∉ placed := fun j hj hplaced =>
          hlate j hj (List.mem_cons_of_mem _ hplaced)
        obtain ⟨rfl, rfl⟩ := ih hfollows.2 hlate' rfl
        exact ⟨rfl, rfl⟩
      | cons m passed =>
        obtain ⟨rfl, -⟩ := List.cons.inj hpending
        exact absurd hfollows.1 (waits k List.mem_cons_self)

/-- What is placed does not wait forever. -/
lemma Greedy.not_waitsForever [Finite ι] {pending : List ι}
    (h : Greedy R ∅ pending placed stuck) (hi : i ∈ placed) : ¬WaitsForever R i :=
  acc_iff_not_waitsForever.1 (h.follows.acc (fun j hj => absurd hj (Set.notMem_empty j)) hi)

end Schedules

namespace Graph

variable {α : Type} {g : Graph α} {placed stuck : List (Fin g.nodes.length)}

/-- The nodes that wait forever stand behind all others, and each of the others stands behind the
nodes that it depends on. -/
structure StuckLast (g : Graph α) : Prop where
  last : ∀ i j, WaitsForever g.DependsOn i → ¬WaitsForever g.DependsOn j → j < i
  later : ∀ i j, ¬WaitsForever g.DependsOn i → g.DependsOn i j → j < i

/-! ## Failing before anything is moved -/

/-- A graph that is not linked is left alone. -/
lemma sort_of_not_linked (hg : ¬g.Linked) : ∃ e, g.sort = (g, .error e) ∧
    ((∃ v, e = .duplicateProducer v) ∨ ∃ node v, e = .danglingReference node v) := by
  rw [linked_iff, not_and_or] at hg
  rw [sort]
  cases hproducers : g.checkProducers with
  | error e =>
    refine ⟨e, rfl, Or.inl ?_⟩
    unfold checkProducers at hproducers
    split at hproducers
    · rename_i v _
      exact ⟨v, (Except.error.inj hproducers).symm⟩
    · simp at hproducers
  | ok _ =>
    cases hreads : g.checkReads with
    | error e =>
      refine ⟨e, rfl, Or.inr ?_⟩
      simp only [checkReads] at hreads
      split at hreads
      · rename_i e' hsome
        obtain ⟨n, -, hn⟩ := List.exists_of_findSome?_eq_some hsome
        obtain ⟨v, -, hv⟩ := Option.map_eq_some_iff.1 hn
        exact ⟨n.name, v, (hv.trans (Except.error.inj hreads)).symm⟩
      · simp at hreads
    | ok _ => exact absurd ⟨hproducers, hreads⟩ (not_and_or.2 hg)

/-! ## Failing on a cycle -/

/-- Nodes with the same operands wait forever together. -/
lemma waitsForever_congr {i j : Fin g.nodes.length} (h : g.nodes.get i = g.nodes.get j) :
    WaitsForever g.DependsOn i ↔ WaitsForever g.DependsOn j := by
  rw [waitsForever_iff, waitsForever_iff]
  simp only [DependsOn, h]

/-- If the nodes are listed in the right way, the schedule takes them as they stand. -/
lemma StuckLast.append_eq (h : g.StuckLast)
    (hgreedy : Greedy g.DependsOn ∅ (List.finRange g.nodes.length) placed stuck) :
    placed ++ stuck = List.finRange g.nodes.length := by
  have hincreasing := List.pairwise_lt_finRange g.nodes.length
  -- The nodes that do not wait forever stand in front.
  have hsorted : (List.finRange g.nodes.length).Pairwise fun i j =>
      ¬WaitsForever g.DependsOn j → ¬WaitsForever g.DependsOn i :=
    hincreasing.imp fun hlt hj hi => lt_asymm hlt (h.last _ _ hi hj)
  obtain ⟨before, after, hsplit, hbefore, hafter⟩ := exists_append_of_pairwise hsorted
  have hfollows : Follows g.DependsOn ∅ before := by
    refine follows_of_split fun xs i ys hxs j hj => Or.inr ?_
    have hi : i ∈ before := by simp [hxs]
    have hlt := h.later i j (hbefore i hi) hj
    have hmem := List.mem_finRange j
    rw [hsplit, hxs] at hincreasing hmem
    rw [List.append_assoc, List.cons_append] at hincreasing hmem
    refine (List.mem_append.1 hmem).resolve_right fun hbehind => ?_
    rcases List.mem_cons.1 hbehind with rfl | hbehind
    · exact lt_irrefl _ hlt
    · have hgt := List.rel_of_pairwise_cons (List.pairwise_append.1 hincreasing).2.1 hbehind
      exact lt_asymm hlt hgt
  have hlate : ∀ i ∈ after, i ∉ placed := fun i hi hplaced =>
    hafter i hi (hgreedy.not_waitsForever hplaced)
  rw [hsplit] at hgreedy ⊢
  obtain ⟨rfl, rfl⟩ := hgreedy.eq_of_append hfollows hlate
  rfl

/-- A graph that the schedule leaves as it is was listed in the right way. -/
lemma Linked.stuckLast (hg : g.Linked)
    (hgreedy : Greedy g.DependsOn ∅ (List.finRange g.nodes.length) placed stuck)
    (hsame : (placed ++ stuck).map g.nodes.get = g.nodes) : g.StuckLast := by
  have hstuck (i : Fin g.nodes.length) : i ∈ stuck ↔ WaitsForever g.DependsOn i :=
    hgreedy.mem_stuck_iff List.mem_finRange
  have hnodup : placed.Nodup :=
    (List.nodup_append.1 (hgreedy.perm.nodup_iff.2 (List.nodup_finRange _))).1
  -- The entry at each position is a node with the same operands and results.
  have hentry : ∀ i : Fin g.nodes.length, ∃ h : i.val < (placed ++ stuck).length,
      g.nodes.get ((placed ++ stuck)[i.val]) = g.nodes.get i := by
    intro i
    have hlt : i.val < ((placed ++ stuck).map g.nodes.get).length := by
      rw [hsame]
      exact i.isLt
    refine ⟨by rwa [List.length_map] at hlt, ?_⟩
    rw [← List.getElem_map g.nodes.get (h := hlt)]
    exact List.getElem_of_eq hsame hlt
  have hfront : ∀ i : Fin g.nodes.length, (h : i.val < placed.length) →
      g.nodes.get placed[i.val] = g.nodes.get i := by
    intro i hi
    obtain ⟨hlt, hget⟩ := hentry i
    rwa [List.getElem_append_left hi] at hget
  have hplaced : ∀ i : Fin g.nodes.length,
      i.val < placed.length ↔ ¬WaitsForever g.DependsOn i := by
    intro i
    constructor
    · intro hi
      rw [← waitsForever_congr (hfront i hi)]
      exact hgreedy.not_waitsForever (List.getElem_mem hi)
    · intro hfree
      by_contra hi
      obtain ⟨hlt, hget⟩ := hentry i
      rw [List.getElem_append_right (not_lt.1 hi)] at hget
      rw [← waitsForever_congr hget, ← hstuck] at hfree
      exact hfree (List.getElem_mem _)
  refine ⟨fun i j hi hj => ?_, fun i j hi hij => ?_⟩
  · have hfree := (hplaced j).2 hj
    have hlate : ¬i.val < placed.length := fun h => (hplaced i).1 h hi
    exact Fin.lt_def.2 (by omega)
  · have hlt := (hplaced i).2 hi
    have hij' : g.DependsOn placed[i.val] j := by
      rw [DependsOn, hfront i hlt]
      exact hij
    have hbefore := hgreedy.follows.idxOf_lt (List.getElem_mem hlt) hij' (Set.notMem_empty j)
    rw [hnodup.idxOf_getElem i.val hlt] at hbefore
    have hq : placed.idxOf j < placed.length := hbefore.trans hlt
    have hqn : placed.idxOf j < g.nodes.length := hbefore.trans i.isLt
    have hj := hfront ⟨placed.idxOf j, hqn⟩ hq
    rw [List.getElem_idxOf hq] at hj
    -- A value has only one writer, so the entry in front is the node itself.
    obtain ⟨v, -, hv⟩ := hij
    have heq := hg.eq_of_outputs hv (hj ▸ hv)
    rw [heq]
    exact hbefore

/-- **What a sort that fails leaves behind.**  A value with two writers or none is found before
anything is moved, and the graph is as it was.  Otherwise nodes wait for each other.  The sort has
then run as a greedy schedule; it leaves the nodes that were placed in front of those that wait
forever, which it names in their old order, and changes nothing else.  The graph is as it was
exactly if its nodes were listed this way. -/
theorem sort_failed {e : Error} (h : g.sort.2 = .error e) :
    g.sort.1 = g ∧ ((∃ v, e = .duplicateProducer v) ∨ ∃ node v, e = .danglingReference node v) ∨
    g.Linked ∧ (∃ placed stuck : List (Fin g.nodes.length),
      Greedy g.DependsOn ∅ (List.finRange g.nodes.length) placed stuck ∧ stuck ≠ [] ∧
      (∀ i, i ∈ stuck ↔ WaitsForever g.DependsOn i) ∧
      e = .cycle (stuck.map fun i => (g.nodes.get i).name) ∧
      g.sort.1 = { g with nodes := placed.map g.nodes.get ++ stuck.map g.nodes.get }) ∧
    (g.sort.1 = g ↔ g.StuckLast) := by
  by_cases hg : g.Linked
  · right
    obtain ⟨placed, stuck, hgreedy, hsort⟩ := hg.sort_eq
    have hfailed : stuck.isEmpty = false := by
      by_contra hempty
      rw [hsort, if_pos (by simpa using hempty)] at h
      simp at h
    rw [hsort, hfailed] at h
    refine ⟨hg, ⟨placed, stuck, hgreedy, by simpa using hfailed,
      fun i => hgreedy.mem_stuck_iff List.mem_finRange, (Except.error.inj h).symm,
      congrArg Prod.fst hsort⟩, ?_⟩
    rw [hsort, ← List.map_append]
    constructor
    · intro hsame
      exact hg.stuckLast hgreedy (congrArg Graph.nodes hsame)
    · intro hlast
      rw [hlast.append_eq hgreedy, List.map_get_finRange]
  · left
    obtain ⟨e', hsort, hcause⟩ := sort_of_not_linked hg
    rw [hsort] at h ⊢
    obtain rfl := Except.error.inj h
    exact ⟨rfl, hcause⟩

/-- Two nodes that read each other's results, listed in front of a node that could run at once. -/
def looped : Graph Rat where
  name := "looped"
  inputs := [⟨"x", [1]⟩]
  outputs := ["y"]
  nodes := [
    ⟨"sum", .add, ["x", "back"], ["forth"]⟩,
    ⟨"turn", .relu, ["forth"], ["back"]⟩,
    ⟨"clip", .relu, ["x"], ["y"]⟩]
  initializers := ∅
  valueShapes := ∅

/-- The two nodes of the looped graph are named, and the node that can run is moved in front. -/
theorem looped_failed : looped.sort.2 = .error (.cycle ["sum", "turn"]) ∧ ¬looped.StuckLast := by
  have hcycle : looped.sort.2 = .error (.cycle ["sum", "turn"]) := rfl
  refine ⟨hcycle, fun hlast => ?_⟩
  rcases sort_failed hcycle with ⟨-, ⟨v, hv⟩ | ⟨node, v, hv⟩⟩ | ⟨-, -, hsame⟩
  · exact Error.noConfusion hv
  · exact Error.noConfusion hv
  · have hmoved := congrArg Graph.nodes (hsame.2 hlast)
    exact absurd hmoved (by decide)

/-- Sorting the looped graph fails, but not without reordering its nodes. -/
theorem looped_reordered : looped.sort.2 = .error (.cycle ["sum", "turn"]) ∧
    looped.sort.1.nodes.map (·.name) = ["clip", "sum", "turn"] ∧ looped.sort.1 ≠ looped := by
  have hnames : looped.sort.1.nodes.map (·.name) = ["clip", "sum", "turn"] := rfl
  refine ⟨rfl, hnames, fun hsame => ?_⟩
  rw [hsame] at hnames
  exact absurd hnames (by decide)

end Graph

end ConvFlow
