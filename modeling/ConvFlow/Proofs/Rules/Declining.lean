/-
# How supervision tells a rule that declines

Supervision does not ask whether a rule has changed anything.  It compares the graph that a
transformation delivers with the one before, and calls the rule not applicable if they agree.
That is right in both directions.  A graph without values that are no numbers agrees with itself
(`Graph.agrees_self`), and it is delivered as it is if the rule declines.  And every change takes
an operation past a convolution, so the number of inversions drops and no run of changes leads back
to where it started.

So supervision reports a rule as not applicable exactly if the rule declines on the graph at once
(`notApplicable_iff`).
-/
import ConvFlow.Proofs.Rules.Acceptance
import ConvFlow.Proofs.Rules.Addend
import ConvFlow.Proofs.Rules.Idempotence

namespace ConvFlow

/-! ## Graphs that agree with themselves -/

/-- A map agrees with itself if everything that it holds does. -/
lemma NameMap.agrees_self {β : Type} {same : β → β → Bool} {m : NameMap β}
    (h : ∀ (v : String) (b : β), m[v]? = some b → same b b = true) :
    NameMap.agrees same m m = true := by
  have hzip (l : List (String × β)) (hl : ∀ c ∈ l, same c.2 c.2 = true) :
      ((l.zip l).all fun c => c.1.1 == c.2.1 && same c.1.2 c.2.2) = true := by
    induction l with
    | nil => rfl
    | cons c l ih =>
      obtain ⟨hc, hl⟩ := List.forall_mem_cons.1 hl
      rw [List.zip_cons_cons, List.all_cons, ih hl]
      simp [hc]
  rw [NameMap.agrees, beq_self_eq_true, Bool.true_and]
  refine hzip m.toList fun c hc => ?_
  exact h c.1 c.2 (Std.ExtTreeMap.mem_toList_iff_getElem?_eq_some.1 hc)

section Agreement

variable {α : Type} [Element α] [Element.EqualsItself α] {g : Graph α} {c : Tensor α}

/-- All elements are numbers. -/
def Tensor.HoldsNumbers (c : Tensor α) : Prop := ∀ a ∈ c.data, Element.isNaN a = false

/-- All constants are made of numbers. -/
def Graph.HoldsNumbers (g : Graph α) : Prop :=
  ∀ (v : String) (c : Tensor α), g.initializers[v]? = some c → c.HoldsNumbers

lemma Tensor.agrees_self (h : c.HoldsNumbers) : c.agrees c = true := by
  have hdata : (c.data == c.data) = true := by
    show c.data.isEqv c.data (· == ·) = true
    rw [Array.isEqv_iff_rel]
    exact ⟨rfl, fun i hi => Element.EqualsItself.beq_self (h _ (Array.getElem_mem hi))⟩
  rw [Tensor.agrees, hdata, beq_self_eq_true]
  rfl

lemma Graph.agrees_self (h : g.HoldsNumbers) : g.agrees g = true := by
  have hconstants : NameMap.agrees Tensor.agrees g.initializers g.initializers = true :=
    NameMap.agrees_self fun v c hc => Tensor.agrees_self (h v c hc)
  have hshapes : NameMap.agrees (· == ·) g.valueShapes g.valueShapes = true :=
    NameMap.agrees_self fun v s _ => beq_self_eq_true s
  simp [Graph.agrees, hconstants, hshapes]

end Agreement

/-- A rule that applies makes at least one change before it declines. -/
lemma Rule.Steps.pos {σ α : Type} {r : Rule σ α} {n : Nat} {s t u u' : σ} {g h k : Graph α}
    (hsteps : r.Steps n s g t h) (hchange : r.attempt s g = (.ok (some k), u))
    (hdeclines : r.attempt t h = (.ok none, u')) : 0 < n := by
  cases hsteps with
  | refl =>
    rw [hchange] at hdeclines
    cases hdeclines
  | step => exact Nat.succ_pos _

namespace Supervised

variable {σ α : Type} [Element α] {strictness : Comparison.Settings α} {s : σ}
  {g₀ g h k : Graph α} {t : RuleChoice} {rule : String}

/-! ## What comes of a graph that has changed -/

/-- Why a changed graph is not accepted, if it is not. -/
lemma accept_cases (hdiffers : h.agrees g = false) :
    accept strictness rule g h = .ok (.applied h) ∨
      (∃ report, accept strictness rule g h = .error (.notEquivalent rule report) ∧
        report.isEquivalent = false) ∨
      ∃ e, accept strictness rule g h = .error (.comparison e) := by
  rw [accept, hdiffers, if_neg Bool.false_ne_true]
  cases hcheck : Comparison.check g h strictness with
  | error e => exact Or.inr (Or.inr ⟨e, rfl⟩)
  | ok report =>
    cases hequivalent : report.isEquivalent with
    | true =>
      refine Or.inl ?_
      show (if report.isEquivalent then _ else _) = _
      rw [if_pos hequivalent]
      rfl
    | false =>
      refine Or.inr (Or.inl ⟨report, ?_, hequivalent⟩)
      show (if report.isEquivalent then _ else _) = _
      rw [hequivalent, if_neg Bool.false_ne_true]
      rfl

/-- What the rule delivers after a change has fewer inversions. -/
lemma exists_of_change (hg : g.IsChecked) (s : σ) (hchange : t.change g = some k) :
    ((t.rule : Rule σ α).transform s g).1 =
        .error (.noFixedPoint (t.rule : Rule σ α).name Transform.passLimit) ∨
      ∃ h, ((t.rule : Rule σ α).transform s g).1 = .ok h ∧
        h.inversions t.kind < g.inversions t.kind := by
  obtain ⟨n, h, hsteps, hdeclines, hh, hle⟩ :=
    Rule.exists_steps_of_moves (r := (t.rule : Rule σ α)) t.rule_kind_cases hg s
  have hpos : 0 < n := by
    refine hsteps.pos (k := k) (u := s) ?_ hdeclines
    rw [RuleChoice.attempt_eq_change, hchange]
  rw [Rule.transform_of_steps hg hsteps hdeclines hh]
  by_cases hlt : n < Transform.passLimit
  · refine Or.inr ⟨h, if_pos hlt, ?_⟩
    omega
  · exact Or.inl (if_neg hlt)

/-- A rule that changes a graph is applied, or fails. -/
lemma apply_of_change (strictness : Comparison.Settings α) (hg : g.IsChecked) (s : σ)
    (hchange : t.change g = some k) :
    (∃ h, (apply strictness (t.rule : Rule σ α) s g).1 = .ok (.applied h) ∧ h ≠ g ∧
        h.agrees g = false) ∨
      (∃ report, (apply strictness (t.rule : Rule σ α) s g).1 =
          .error (.notEquivalent (t.rule : Rule σ α).name report) ∧
        report.isEquivalent = false) ∨
      (∃ e, (apply strictness (t.rule : Rule σ α) s g).1 = .error (.comparison e)) ∨
      (apply strictness (t.rule : Rule σ α) s g).1 =
        .error (.transform (.noFixedPoint (t.rule : Rule σ α).name Transform.passLimit)) := by
  rcases exists_of_change hg s hchange with hlimit | ⟨h, hdone, hless⟩
  · refine Or.inr (Or.inr (Or.inr ?_))
    rw [apply_eq, hlimit]
  · have hdiffers : h.agrees g = false := agrees_eq_false hless
    have hne : h ≠ g := by
      rintro rfl
      exact Nat.lt_irrefl _ hless
    have happly : (apply strictness (t.rule : Rule σ α) s g).1 =
        accept strictness (t.rule : Rule σ α).name g h := by
      rw [apply_eq, hdone]
    rw [happly]
    rcases accept_cases hdiffers with haccept | hreport | herror
    · exact Or.inl ⟨h, haccept, hne, hdiffers⟩
    · exact Or.inr (Or.inl hreport)
    · exact Or.inr (Or.inr (Or.inl herror))

/-- **Supervision finds a rule not applicable exactly if the rule declines.**  If the rule changes a
checked graph without values that are no numbers, then supervision delivers another graph, or it
says that the change cannot be accepted, cannot be compared or has no end. -/
theorem notApplicable_iff [Element.EqualsItself α] (t : RuleChoice)
    (strictness : Comparison.Settings α) (hchecked : g₀.checked = .ok g)
    (hnumbers : g.HoldsNumbers) (s : σ) :
    ((apply strictness (t.rule : Rule σ α) s g).1 = .ok .notApplicable ↔
        ((t.rule : Rule σ α).attempt s g).1 = .ok none) ∧
      ∀ k, ((t.rule : Rule σ α).attempt s g).1 = .ok (some k) →
        (∃ h, (apply strictness (t.rule : Rule σ α) s g).1 = .ok (.applied h) ∧ h ≠ g ∧
          h.agrees g = false) ∨
        (∃ report, (apply strictness (t.rule : Rule σ α) s g).1 =
            .error (.notEquivalent (t.rule : Rule σ α).name report) ∧
          report.isEquivalent = false) ∨
        (∃ e, (apply strictness (t.rule : Rule σ α) s g).1 = .error (.comparison e)) ∨
        (apply strictness (t.rule : Rule σ α) s g).1 =
          .error (.transform (.noFixedPoint (t.rule : Rule σ α).name Transform.passLimit)) := by
  have hg := Graph.isChecked_of_checked hchecked
  rw [RuleChoice.attempt_eq_change]
  cases hchange : t.change g with
  | none =>
    refine ⟨iff_of_true ?_ rfl, fun k hk => ?_⟩
    · rw [apply, RuleChoice.transform_of_change_eq_none hg hchange]
      show accept strictness _ g g = _
      rw [accept, if_pos (Graph.agrees_self hnumbers)]
    · cases hk
  | some k =>
    have hcases := apply_of_change strictness hg s hchange
    refine ⟨iff_of_false (fun hnone => ?_) (fun hdeclined => ?_), fun _ _ => hcases⟩
    · rw [hnone] at hcases
      simp at hcases
    · cases hdeclined

/-- In the small graph a shift moves and is accepted.  With nothing to multiply by in front of its
convolution, the rule for multiplications is not applicable to the graph that delivers its
addend. -/
theorem smallGraph_applied : (∃ g h, Execution.smallGraph.checked = .ok g ∧
      (apply ⟨1, 0, ⟨0, 0⟩⟩ (RuleChoice.addPastConv.rule : Rule Unit Rat) () g).1 =
        .ok (.applied h) ∧ h ≠ g) ∧
    ∃ g, Rule.deliveredAddend.checked = .ok g ∧
      (apply ⟨1, 0, ⟨0, 0⟩⟩ (RuleChoice.mulPastConv.rule : Rule Unit Rat) () g).1 =
        .ok .notApplicable := by
  refine ⟨?_, ?_⟩
  · obtain ⟨g, k, hg, hattempt, haccepted⟩ : ∃ g k, Execution.smallGraph.checked = .ok g ∧
        ((RuleChoice.addPastConv.rule : Rule Unit Rat).attempt () g).1 = .ok (some k) ∧
        (apply ⟨1, 0, ⟨0, 0⟩⟩ (RuleChoice.addPastConv.rule : Rule Unit Rat) ()
          g).1.toOption.isSome = true := ⟨_, _, rfl, rfl, by decide +kernel⟩
    have hcases := (notApplicable_iff .addPastConv ⟨1, 0, ⟨0, 0⟩⟩ hg
      (fun _ _ _ _ _ => rfl) ()).2 k hattempt
    rcases hcases with ⟨h, happly, hne, -⟩ | ⟨report, hfail, -⟩ | ⟨e, hfail⟩ | hfail
    · exact ⟨g, h, hg, happly, hne⟩
    all_goals
      rw [hfail] at haccepted
      exact absurd haccepted (by simp [Except.toOption])
  · obtain ⟨g, hg, hattempt⟩ : ∃ g, Rule.deliveredAddend.checked = .ok g ∧
        ((RuleChoice.mulPastConv.rule : Rule Unit Rat).attempt () g).1 = .ok none :=
      ⟨_, rfl, rfl⟩
    exact ⟨g, hg, (notApplicable_iff .mulPastConv _ hg (fun _ _ _ _ _ => rfl) ()).1.2 hattempt⟩

end Supervised

end ConvFlow
