/-
# Transforming twice

A transformation that succeeds has ended because its rule has declined (`declines_of_transform`),
whatever rule it is.  On a checked graph that is declined at once, a transformation delivers the
graph itself: validation succeeds, inference finds the shapes that are recorded, and the rule is
asked only once (`transform_of_declines`).

A rule without state that has declined on a graph declines on it again.  So what the two rules make
of a graph stays as it is when they are applied once more (`transform_idempotent`).
-/
import ConvFlow.Proofs.Rules.Supervised
import ConvFlow.Proofs.Rules.Tracing

namespace ConvFlow

open Outcome Transform

variable {σ α : Type} {g h : Graph α} {s s' : σ} {r : Rule σ α}

namespace Rule

variable {budget passes n : Nat}

/-- The loop ends with a graph on which the rule declines. -/
lemma declines_of_exhaust (hdone : (r.exhaust budget passes s g).1 = .ok (h, n)) :
    ∃ u, (r.attempt u h).1 = .ok none := by
  induction budget generalizing passes s g with
  | zero => simp [exhaust] at hdone
  | succ budget ih =>
    rw [exhaust] at hdone
    rcases hattempt : r.attempt s g with ⟨e | _ | k, s'⟩
    · simp [hattempt] at hdone
    · rw [hattempt] at hdone
      obtain ⟨rfl, -⟩ := Prod.mk.inj (Except.ok.inj hdone)
      exact ⟨s, by rw [hattempt]⟩
    · -- After a change the loop goes on with what inference makes of it.
      cases hinfer : k.inferShapes with
      | error e => simp [hattempt, hinfer] at hdone
      | ok l =>
        simp only [hattempt, hinfer] at hdone
        exact ih hdone

/-- **A transformation succeeds only when its rule has declined.** -/
theorem declines_of_transform (hdone : (r.transform s g).1 = .ok h) :
    ∃ u, (r.attempt u h).1 = .ok none := by
  obtain ⟨start, k, n, -, hexhaust, hfinish⟩ := transform_eq_ok hdone
  obtain ⟨rfl, -⟩ := finish_eq_ok_iff.1 hfinish
  exact declines_of_exhaust hexhaust

/-- **A rule that declines leaves a checked graph as it is.** -/
theorem transform_of_declines (hg : g.IsChecked) (hdeclines : r.attempt s g = (.ok none, s')) :
    r.transform s g = (.ok g, s') := by
  have hexhaust (budget : Nat) : r.exhaust (budget + 1) 0 s g = (.ok (g, 0), s') := by
    rw [exhaust, hdeclines]
  rw [transform, prepare_eq_ok hg]
  simp only [passLimit, hexhaust 4095]
  rfl

end Rule

namespace RuleChoice

variable [Element α] {t : RuleChoice}

/-- Both rules decide without a state. -/
lemma change_eq_none_iff_attempt {u : σ} :
    t.change g = none ↔ ((t.rule : Rule σ α).attempt u g).1 = .ok none := by
  rw [attempt_eq_change]
  exact ⟨congrArg Except.ok, Except.ok.inj⟩

lemma transform_of_change_eq_none (hg : g.IsChecked) (hdeclines : t.change g = none) (u : σ) :
    (t.rule : Rule σ α).transform u g = (.ok g, u) := by
  refine Rule.transform_of_declines hg ?_
  rw [attempt_eq_change, hdeclines]

/-- **Transforming is idempotent.**  What a rule makes of a graph, be it checked before or not, it
leaves unchanged when it is applied again. -/
theorem transform_idempotent (t : RuleChoice) {u : σ}
    (hdone : ((t.rule : Rule σ α).transform s g).1 = .ok h) :
    (t.rule : Rule σ α).transform u h = (.ok h, u) := by
  obtain ⟨s', hdeclines⟩ := Rule.declines_of_transform hdone
  exact transform_of_change_eq_none (Rule.isChecked_of_transform hdone)
    (change_eq_none_iff_attempt.2 hdeclines) u

/-- The shift of the small graph moves past one convolution, and then nothing moves any more. -/
theorem smallGraph_transformed_again : ∃ g h, Execution.smallGraph.checked = .ok g ∧
    ((addPastConv.rule : Rule Unit Rat).transform () g).1 = .ok h ∧
    h.nodes.map (·.name) = ["first", "shift", "scale", "second", "lift", "clip"] ∧
    (addPastConv.rule : Rule Unit Rat).transform () h = (.ok h, ()) := by
  obtain ⟨g, h, hg, -, hdone, hnames⟩ := Rule.smallGraph_addPastConv
  exact ⟨g, h, hg, hdone, hnames, transform_idempotent addPastConv hdone⟩

end RuleChoice

end ConvFlow
