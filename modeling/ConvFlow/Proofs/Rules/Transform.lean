/-
# Transforming a graph by moves

A transformation applies its rule until the rule declines.  If every change of the rule keeps an
invariant, then a transformation that starts within it either gives up at its pass limit or
delivers a well-formed graph with its shapes, reached by such changes (`transform_cases`).  Both
rules change a graph by `Advances`: one move, and the shapes inferred anew.
-/
import Mathlib.Logic.Relation
import ConvFlow.Proofs.Rules.Moves

namespace ConvFlow

open Outcome Transform

namespace Rule

variable {σ α : Type} {g h : Graph α} {R : Graph α → Graph α → Prop}
  {change : Graph α → Option (Graph α)} {name : String}

/-- Whenever the change applies to a checked graph, inference leads on to a checked graph that is
related to it. -/
def ChangesBy (change : Graph α → Option (Graph α)) (R : Graph α → Graph α → Prop) : Prop :=
  ∀ g h, g.IsChecked → change g = some h → ∃ k, h.inferShapes = .ok k ∧ k.IsChecked ∧ R g k

lemma exhaust_cases (hchange : ChangesBy change R) (hg : g.IsChecked) (budget passes : Nat)
    (s : σ) : let r : Rule σ α := ofFunction name change
    (r.exhaust budget passes s g).1 = .error (.noFixedPoint name (passes + budget)) ∨
      ∃ h n, (r.exhaust budget passes s g).1 = .ok (h, n) ∧ h.IsChecked ∧
        Relation.ReflTransGen R g h := by
  intro r
  induction budget generalizing passes g with
  | zero => exact Or.inl rfl
  | succ budget ih =>
    have hattempt : r.attempt s g = (.ok (change g), s) := rfl
    cases hnext : change g with
    | none =>
      refine Or.inr ⟨g, passes, ?_, hg, .refl⟩
      rw [exhaust, hattempt, hnext]
    | some h =>
      obtain ⟨k, hinfer, hk, hrel⟩ := hchange g h hg hnext
      -- The change leads to a checked graph, from where the loop goes on with one change less.
      have hstep : r.exhaust (budget + 1) passes s g = r.exhaust budget (passes + 1) s k := by
        rw [exhaust, hattempt, hnext]
        simp only [hinfer]
      rw [hstep]
      rcases ih hk (passes + 1) with hlimit | ⟨l, n, hdone, hl, hreach⟩
      · refine Or.inl ?_
        rw [hlimit, Nat.add_assoc, Nat.add_comm 1]
      · exact Or.inr ⟨l, n, hdone, hl, .head hrel hreach⟩

lemma finish_eq_ok (hg : g.WellFormed) (passes : Nat) : finish g passes = .ok g := by
  unfold finish
  split
  · rfl
  · rw [Graph.validate_eq_ok_iff.2 hg]
    rfl

lemma prepare_eq_ok (hg : g.IsChecked) : prepare g = .ok g := by
  rw [prepare, Graph.validate_eq_ok_iff.2 hg.wellFormed, hg.inferShapes]
  rfl

/-- **A transformation gives up at its limit or delivers a checked graph.** -/
theorem transform_cases (hchange : ChangesBy change R) (hg : g.IsChecked) (s : σ) :
    let r : Rule σ α := ofFunction name change
    (r.transform s g).1 = .error (.noFixedPoint name passLimit) ∨
      ∃ h, (r.transform s g).1 = .ok h ∧ h.IsChecked ∧ Relation.ReflTransGen R g h := by
  intro r
  have hcases : (r.exhaust passLimit 0 s g).1 = .error (.noFixedPoint name (0 + passLimit)) ∨ _ :=
    exhaust_cases hchange hg passLimit 0 s
  have hexhaust : r.exhaust passLimit 0 s g =
      ((r.exhaust passLimit 0 s g).1, (r.exhaust passLimit 0 s g).2) := rfl
  rw [transform, prepare_eq_ok hg]
  simp only
  rcases hcases with hlimit | ⟨h, n, hdone, hh, hreach⟩
  · refine Or.inl ?_
    rw [hexhaust, hlimit, Nat.zero_add]
  · refine Or.inr ⟨h, ?_, hh, hreach⟩
    rw [hexhaust, hdone]
    exact finish_eq_ok hh.wellFormed n

end Rule

/-! ## The two rules -/

namespace Graph

variable {α : Type} [Element α] {g h k : Graph α}

/-- One move, after which the shapes are inferred anew. -/
def Advances (g k : Graph α) : Prop := ∃ h, Moves g h ∧ h.inferShapes = .ok k

lemma Moves.inferShapes (hmoves : Moves g h) (hg : g.IsChecked) :
    ∃ k, h.inferShapes = .ok k ∧ k.IsChecked ∧ Advances g k := by
  obtain ⟨p, name, value, hfree, hlegal, rfl⟩ := hmoves
  obtain ⟨s, -, hs⟩ := Pair.inferShapes_exchange hg hfree hlegal
  refine ⟨_, hs, ?_, p.exchange name value, ⟨p, name, value, hfree, hlegal, rfl⟩, hs⟩
  exact .of_inferShapes (Pair.wellFormed_exchange hg.wellFormed hfree) hs

end Graph

namespace Rule

variable {σ α : Type} [Element α] {g : Graph α}

theorem addPastConv_cases (hg : g.IsChecked) (s : σ) :
    let r : Rule σ α := addPastConv
    (r.transform s g).1 = .error (.noFixedPoint r.name passLimit) ∨
      ∃ h, (r.transform s g).1 = .ok h ∧ h.IsChecked ∧ Relation.ReflTransGen Graph.Advances g h := by
  refine transform_cases (fun g h hg hchange => ?_) hg s
  obtain ⟨i, -, hi⟩ := List.exists_of_findSome?_eq_some hchange
  exact (Graph.movesOf_of_addPastConvAt hg hi).moves.inferShapes hg

/-- The multiplications that are moved keep all constants as they are. -/
theorem mulPastConv_cases (hg : g.IsChecked) (s : σ) :
    let r : Rule σ α := mulPastConv
    (r.transform s g).1 = .error (.noFixedPoint r.name passLimit) ∨
      ∃ h, (r.transform s g).1 = .ok h ∧ h.IsChecked ∧ Relation.ReflTransGen
        (fun g k : Graph α => g.Advances k ∧ k.initializers = g.initializers) g h := by
  refine transform_cases (fun g h hg hchange => ?_) hg s
  obtain ⟨i, -, hi⟩ := List.exists_of_findSome?_eq_some hchange
  obtain ⟨hmoves, hconst⟩ := Graph.movesOf_of_mulPastConvAt hg hi
  obtain ⟨k, hinfer, hk, hadvances⟩ := hmoves.moves.inferShapes hg
  refine ⟨k, hinfer, hk, hadvances, ?_⟩
  rw [Graph.eq_of_inferShapes hinfer]
  exact hconst

/-- Both rules only make moves. -/
lemma reach_of_transform {r : Rule σ α} (hr : r = addPastConv ∨ r = mulPastConv)
    (hg : g.IsChecked) {s : σ} {h : Graph α} (hdone : (r.transform s g).1 = .ok h) :
    Relation.ReflTransGen Graph.Advances g h := by
  rcases hr with rfl | rfl
  · rcases addPastConv_cases hg s with hlimit | ⟨k, hk, -, hreach⟩
    · simp [hlimit] at hdone
    · obtain rfl := Except.ok.inj (hk.symm.trans hdone)
      exact hreach
  · rcases mulPastConv_cases hg s with hlimit | ⟨k, hk, -, hreach⟩
    · simp [hlimit] at hdone
    · obtain rfl := Except.ok.inj (hk.symm.trans hdone)
      exact hreach.lift id fun _ _ hstep => hstep.1

end Rule

end ConvFlow
