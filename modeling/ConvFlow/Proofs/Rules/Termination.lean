/-
# Transformations come to an end

A move takes an operation from before a convolution to behind it.  The number of pairs of an
operation of the kind that is moved and a convolution anywhere behind it (`Graph.inversions`)
therefore drops with every move, by one for the convolution of the move and by one for each
convolution that the operation passes on the way (`Pair.inversions_exchange`).

So a rule changes a checked graph only finitely often.  `Steps` counts these changes, and
`transform_terminates` says what a transformation makes of their number: it gives up exactly if the
limit is reached, and delivers the last graph otherwise.
-/
import Mathlib.Algebra.BigOperators.Fin
import Mathlib.Data.Fintype.Prod
import ConvFlow.Proofs.Rules.Preservation

namespace ConvFlow

open Outcome Transform

/-! ## Inversions -/

section Crossings

variable {β : Type} (p q : β → Bool)

/-- The number of pairs of an entry that passes the first test and a later one that passes the
second. -/
def crossings : List β → Nat
  | [] => 0
  | b :: l => (if p b then l.countP q else 0) + crossings l

lemma crossings_append (l m : List β) :
    crossings p q (l ++ m) = crossings p q l + crossings p q m + l.countP p * m.countP q := by
  induction l with
  | nil => simp [crossings]
  | cons b l ih =>
    rw [List.cons_append, crossings, crossings, ih, List.countP_append, List.countP_cons]
    split
    · rw [Nat.add_mul]
      omega
    · rw [Nat.add_zero]
      omega

/-- Moving an entry that passes only the first test to the place behind one that passes only the
second test saves that crossing, and one for each entry in between that passes the second test. -/
lemma crossings_exchange (xs ys zs : List β) {a b a' b' : β} (ha : p a) (ha' : p a') (hb : q b)
    (hb' : q b') (hqa : ¬q a) (hqa' : ¬q a') (hpb : ¬p b) (hpb' : ¬p b') :
    crossings p q (xs ++ (ys ++ b' :: a' :: zs)) + ys.countP q + 1 =
      crossings p q (xs ++ a :: (ys ++ b :: zs)) := by
  simp only [crossings_append, crossings, List.countP_append, List.countP_cons, if_pos ha,
    if_pos ha', if_pos hb, if_pos hb', if_neg hqa, if_neg hqa', if_neg hpb, if_neg hpb',
    Nat.add_zero, Nat.zero_add]
  omega

lemma crossings_le (l : List β) :
    crossings p q l ≤ l.countP p * l.countP q := by
  induction l with
  | nil => exact Nat.zero_le _
  | cons b l ih =>
    rw [crossings, List.countP_cons, List.countP_cons]
    have hmul : l.countP p * l.countP q ≤ l.countP p * (l.countP q + if q b then 1 else 0) :=
      Nat.mul_le_mul_left _ (Nat.le_add_right _ _)
    split
    · rw [Nat.succ_mul]
      omega
    · rw [Nat.add_zero]
      omega

lemma countP_eq_sum (l : List β) :
    l.countP q = ∑ j : Fin l.length, if q (l.get j) then 1 else 0 := by
  induction l with
  | nil => rfl
  | cons b l ih =>
    rw [List.countP_cons, ih, Nat.add_comm]
    exact (Fin.sum_univ_succ fun j : Fin (l.length + 1) => if q ((b :: l).get j) then 1 else 0).symm

/-- The crossings are the pairs of positions, the first one before the second one, whose entries
pass the two tests. -/
lemma card_eq_crossings (l : List β) :
    (Finset.univ.filter fun ij : Fin l.length × Fin l.length =>
      ij.1 < ij.2 ∧ p (l.get ij.1) ∧ q (l.get ij.2)).card = crossings p q l := by
  rw [Finset.card_filter, Fintype.sum_prod_type]
  induction l with
  | nil => rfl
  | cons b l ih =>
    rw [crossings, ← ih, countP_eq_sum]
    -- Pairs that start at the first entry, and pairs that start at a later one.
    refine (Fin.sum_univ_succ _).trans (congrArg₂ (· + ·) ?_ ?_)
    · refine (Fin.sum_univ_succ _).trans ?_
      cases hb : p b <;> simp [hb]
    · refine Finset.sum_congr rfl fun i _ => ?_
      refine (Fin.sum_univ_succ _).trans ?_
      simp

end Crossings

namespace Graph

variable {α : Type} {g h k : Graph α} {kind : OpKind}

/-- The number of pairs of a node of the given kind and a convolution that comes after it. -/
def inversions (g : Graph α) (kind : OpKind) : Nat :=
  (Finset.univ.filter fun ij : Fin g.nodes.length × Fin g.nodes.length => ij.1 < ij.2 ∧
    (g.nodes.get ij.1).op.kind = kind ∧ (g.nodes.get ij.2).op.kind = .conv).card

lemma inversions_eq (g : Graph α) (kind : OpKind) : g.inversions kind =
    crossings (fun n : Node => n.op.kind == kind) (fun n => n.op.kind == .conv) g.nodes := by
  rw [← card_eq_crossings]
  simp only [inversions, beq_iff_eq]

/-- With all operations in front of all convolutions there is one inversion for each two of
them, at most. -/
lemma inversions_le {ops convs : List Node} (hnodes : g.nodes = ops ++ convs)
    (hops : ∀ n ∈ ops, n.op.kind ≠ .conv) (hconvs : ∀ n ∈ convs, n.op.kind ≠ kind) :
    g.inversions kind ≤ ops.length * convs.length := by
  have hnone : ops.countP (fun n => n.op.kind == .conv) = 0 :=
    List.countP_eq_zero.2 fun n hn => by simpa using hops n hn
  have hnone' : convs.countP (fun n => n.op.kind == kind) = 0 :=
    List.countP_eq_zero.2 fun n hn => by simpa using hconvs n hn
  rw [inversions_eq, hnodes]
  refine (crossings_le _ _ _).trans ?_
  rw [List.countP_append, List.countP_append, hnone, hnone', Nat.add_zero, Nat.zero_add]
  exact Nat.mul_le_mul List.countP_le_length List.countP_le_length

/-- **A move saves inversions**: that of its convolution, and those of the convolutions between the
two nodes. -/
lemma Pair.inversions_exchange (p : Pair g) (name : String) (value : Tensor α) :
    (p.exchange name value).inversions p.op.op.kind +
      p.mid.countP (fun n => n.op.kind == .conv) + 1 = g.inversions p.op.op.kind := by
  have hop := p.op_kind_ne_conv
  have hconv := p.conv_kind
  rw [inversions_eq, inversions_eq, p.nodes_exchange, p.nodes_eq]
  refine crossings_exchange _ _ p.before p.mid p.after ?_ ?_ ?_ ?_ ?_ ?_ ?_ ?_ <;>
    simp [newOp, newConv, hop, hop.symm, hconv]

variable [Element α]

lemma MovesOf.inversions_lt (hmoves : MovesOf kind g h) (hinfer : h.inferShapes = .ok k) :
    k.inversions kind < g.inversions kind := by
  obtain ⟨p, name, value, rfl, -, -, rfl⟩ := hmoves
  have hdrop := p.inversions_exchange name value
  have hk : k.inversions p.op.op.kind = (p.exchange name value).inversions p.op.op.kind := by
    rw [eq_of_inferShapes hinfer]
    rfl
  omega

end Graph

namespace Rule

variable {σ α : Type} {g₀ g h h' k : Graph α} {r : Rule σ α} {s s' t u : σ} {m n : Nat}

/-! ## Counting changes -/

/-- The rule leads from the one state and graph to the other by the given number of changes, with
the shapes inferred anew after each. -/
inductive Steps (r : Rule σ α) : Nat → σ → Graph α → σ → Graph α → Prop
  | refl (s : σ) (g : Graph α) : Steps r 0 s g s g
  | step {n : Nat} {s s' t : σ} {g h k l : Graph α} (change : r.attempt s g = (.ok (some h), s'))
      (shapes : h.inferShapes = .ok k) (rest : Steps r n s' k t l) : Steps r (n + 1) s g t l

namespace Steps

/-- No run of changes is longer than one after which the rule declines. -/
lemma le_of_declines (hm : r.Steps m s g t h) (hn : r.Steps n s g u k)
    (hdeclines : r.attempt u k = (.ok none, s')) : m ≤ n := by
  induction hm generalizing n with
  | refl => exact Nat.zero_le n
  | step change shapes _ ih =>
    cases hn with
    | refl =>
      rw [change] at hdeclines
      cases hdeclines
    | step change' shapes' rest =>
      rw [change] at change'
      cases change'
      rw [shapes] at shapes'
      cases shapes'
      exact Nat.succ_le_succ (ih rest)

/-- If the rule declines after some number of changes, then its budget decides: with more than this
number it finds the graph at which the rule declines, and otherwise it is used up. -/
lemma exhaust_eq (hn : r.Steps n s g t h) (hdeclines : r.attempt t h = (.ok none, s'))
    (budget passes : Nat) : (r.exhaust budget passes s g).1 =
      if n < budget then .ok (h, passes + n)
      else .error (.noFixedPoint r.name (passes + budget)) := by
  induction hn generalizing budget passes with
  | refl s g =>
    cases budget with
    | zero => rfl
    | succ budget =>
      rw [exhaust, hdeclines, if_pos (Nat.succ_pos budget)]
      rfl
  | @step n s s₁ t g h k l change shapes _ ih =>
    cases budget with
    | zero => rfl
    | succ budget =>
      have hstep : r.exhaust (budget + 1) passes s g = r.exhaust budget (passes + 1) s₁ k := by
        rw [exhaust, change]
        simp only [shapes]
      rw [hstep, ih hdeclines budget (passes + 1)]
      simp only [Nat.add_lt_add_iff_right, Nat.add_assoc, Nat.add_comm 1]

end Steps

/-- A change that always makes a measure smaller comes to an end, after as many changes as the
measure has dropped, at most. -/
lemma exists_steps {name : String} {change : Graph α → Option (Graph α)} (measure : Graph α → Nat)
    (hchange : ChangesBy change fun g k => measure k < measure g) (hg : g.IsChecked) (s : σ) :
    let r : Rule σ α := ofFunction name change
    ∃ n h, r.Steps n s g s h ∧ r.attempt s h = (.ok none, s) ∧ h.IsChecked ∧
      n + measure h ≤ measure g := by
  intro r
  induction hmeasure : measure g using Nat.strong_induction_on generalizing g with
  | _ size ih =>
    have hattempt : r.attempt s g = (.ok (change g), s) := rfl
    cases hnext : change g with
    | none => exact ⟨0, g, .refl s g, hnext ▸ hattempt, hg, by omega⟩
    | some h =>
      obtain ⟨k, hinfer, hk, hless⟩ := hchange g h hg hnext
      obtain ⟨n, l, hsteps, hdeclines, hl, hle⟩ := ih (measure k) (hmeasure ▸ hless) hk rfl
      exact ⟨n + 1, l, .step (hnext ▸ hattempt) hinfer hsteps, hdeclines, hl, by omega⟩

/-- The transformation of a checked graph, by the number of changes that the rule can make. -/
lemma transform_of_steps (hg : g.IsChecked) (hn : r.Steps n s g t h)
    (hdeclines : r.attempt t h = (.ok none, s')) (hh : h.IsChecked) :
    (r.transform s g).1 =
      if n < passLimit then .ok h else .error (.noFixedPoint r.name passLimit) := by
  have hexhaust := hn.exhaust_eq hdeclines passLimit 0
  have hpair : r.exhaust passLimit 0 s g =
      ((r.exhaust passLimit 0 s g).1, (r.exhaust passLimit 0 s g).2) := rfl
  rw [transform, prepare_eq_ok hg]
  simp only
  rw [hpair, hexhaust]
  by_cases hlt : n < passLimit
  · rw [if_pos hlt, if_pos hlt]
    exact finish_eq_ok hh.wellFormed (0 + n)
  · rw [if_neg hlt, if_neg hlt, Nat.zero_add]

variable [Element α]

/-- From a checked graph both rules make a number of changes and then decline, each change at the
expense of an inversion. -/
lemma exists_steps_of_moves {kind : OpKind}
    (hr : r = addPastConv ∧ kind = .add ∨ r = mulPastConv ∧ kind = .mul) (hg : g.IsChecked)
    (s : σ) : ∃ n h, r.Steps n s g s h ∧ r.attempt s h = (.ok none, s) ∧ h.IsChecked ∧
      n + h.inversions kind ≤ g.inversions kind := by
  rcases hr with ⟨rfl, rfl⟩ | ⟨rfl, rfl⟩
  · refine exists_steps (fun g => g.inversions .add) (fun g h hg hchange => ?_) hg s
    obtain ⟨i, -, hi⟩ := List.exists_of_findSome?_eq_some hchange
    have hmoves := Graph.movesOf_of_addPastConvAt hg hi
    obtain ⟨k, hinfer, hk, -⟩ := hmoves.moves.inferShapes hg
    exact ⟨k, hinfer, hk, hmoves.inversions_lt hinfer⟩
  · refine exists_steps (fun g => g.inversions .mul) (fun g h hg hchange => ?_) hg s
    obtain ⟨i, -, hi⟩ := List.exists_of_findSome?_eq_some hchange
    obtain ⟨hmoves, -⟩ := Graph.movesOf_of_mulPastConvAt hg hi
    obtain ⟨k, hinfer, hk, -⟩ := hmoves.moves.inferShapes hg
    exact ⟨k, hinfer, hk, hmoves.inversions_lt hinfer⟩

/-- **Both rules come to an end.**  From a checked graph a rule can make a certain number of
changes, at most one for each pair of an operation that it moves and a later convolution, and then
declines.  If this number is below the pass limit, the transformation delivers the graph at which
the rule declines; otherwise, and only then, it gives up. -/
theorem transform_terminates {kind : OpKind}
    (hr : r = addPastConv ∧ kind = .add ∨ r = mulPastConv ∧ kind = .mul)
    (hchecked : g₀.checked = .ok g) (s : σ) :
    ∃ n h, r.Steps n s g s h ∧ r.attempt s h = (.ok none, s) ∧ n ≤ g.inversions kind ∧
      (∀ m t h', r.Steps m s g t h' → m ≤ n) ∧
      ((r.transform s g).1 = .error (.noFixedPoint r.name passLimit) ↔ passLimit ≤ n) ∧
      (n < passLimit → (r.transform s g).1 = .ok h) := by
  have hg := Graph.isChecked_of_checked hchecked
  obtain ⟨n, h, hsteps, hdeclines, hh, hle⟩ := exists_steps_of_moves hr hg s
  have htransform := transform_of_steps hg hsteps hdeclines hh
  refine ⟨n, h, hsteps, hdeclines, by omega, fun m t h' hm => hm.le_of_declines hsteps hdeclines,
    ?_, fun hlt => ?_⟩
  · rw [htransform]
    split
    · rename_i hlt
      exact iff_of_false (fun h => nomatch h) (Nat.not_le.2 hlt)
    · rename_i hge
      exact iff_of_true rfl (Nat.not_lt.1 hge)
  · rw [htransform, if_pos hlt]

/-- The shift of the small graph moves at most twice, since two convolutions stand behind it. -/
theorem smallGraph_terminates : ∃ g n h, Execution.smallGraph.checked = .ok g ∧
    (addPastConv : Rule Unit Rat).Steps n () g () h ∧ n ≤ 2 ∧
      ((addPastConv : Rule Unit Rat).transform () g).1 = .ok h := by
  obtain ⟨g, hg, hinversions⟩ : ∃ g, Execution.smallGraph.checked = .ok g ∧
      g.inversions .add = 2 := ⟨_, rfl, by decide +kernel⟩
  obtain ⟨n, h, hsteps, -, hle, -, -, hdone⟩ :=
    transform_terminates (r := (addPastConv : Rule Unit Rat)) (Or.inl ⟨rfl, rfl⟩) hg ()
  exact ⟨g, n, h, hg, hsteps, by omega, hdone (by rw [passLimit]; omega)⟩

end Rule

end ConvFlow
