/-
# What supervision accepts

Nothing is assumed about a rule here: it may keep a state, and it may change a graph in any way.
What a transformation delivers is checked all the same (`isChecked_of_transform`), since the graph
is validated and its shapes are inferred whatever the rule has done.

A supervised run passes from graph to graph by transformations that the comparison has accepted.
`Trail` records them with the names of their rules, and `trail_of_run` finds the trail behind the
result of a run.
-/
import ConvFlow.Proofs.Comparison.Samples
import ConvFlow.Proofs.Rules.Transform
import ConvFlow.Rules.Supervised

namespace ConvFlow

open Outcome Transform

/-! ## Transformations by any rule -/

namespace Rule

variable {σ α : Type} {r : Rule σ α} {g h k : Graph α} {s : σ} {P : Graph α → Prop}
  {budget passes n : Nat}

/-- The rule leaves the declarations of the inputs as they are. -/
def KeepsInputs (r : Rule σ α) : Prop :=
  ∀ s g h, (r.attempt s g).1 = .ok (some h) → h.inputs = g.inputs

/-- What holds at the start and is kept by every change holds of the graph that the loop reaches,
and without a change the graph is the one at the start. -/
lemma exhaust_invariant
    (hstep : ∀ s g h k, P g → (r.attempt s g).1 = .ok (some h) → h.inferShapes = .ok k → P k)
    (hg : P g) (hdone : (r.exhaust budget passes s g).1 = .ok (h, n)) :
    P h ∧ passes ≤ n ∧ (n = passes → h = g) := by
  induction budget generalizing passes s g with
  | zero => simp [exhaust] at hdone
  | succ budget ih =>
    rw [exhaust] at hdone
    rcases hattempt : r.attempt s g with ⟨outcome, s'⟩
    rw [hattempt] at hdone
    cases outcome with
    | error e => simp at hdone
    | ok change =>
      cases change with
      | none =>
        obtain ⟨rfl, rfl⟩ := Prod.mk.inj (Except.ok.inj hdone)
        exact ⟨hg, Nat.le_refl _, fun _ => rfl⟩
      | some g' =>
        cases hinfer : g'.inferShapes with
        | error e => simp [hinfer] at hdone
        | ok k =>
          simp only [hinfer] at hdone
          have hk : P k := hstep s g g' k hg (by rw [hattempt]) hinfer
          obtain ⟨hh, hpasses, -⟩ := ih hk hdone
          exact ⟨hh, by omega, by omega⟩

lemma prepare_eq_ok_iff : prepare g = .ok k ↔ g.WellFormed ∧ g.inferShapes = .ok k := by
  rw [prepare, check_bind_eq_ok_iff, mapError_eq_ok_iff, mapError_eq_ok_iff,
    Graph.validate_eq_ok_iff]

lemma finish_eq_ok_iff : finish h n = .ok k ↔ h = k ∧ (n = 0 ∨ h.WellFormed) := by
  unfold finish
  split
  · rename_i hzero
    simp [hzero]
  · rename_i hpos
    simp only [map_eq_ok_iff, mapError_eq_ok_iff, hpos, false_or]
    exact ⟨fun ⟨_, hh, heq⟩ => ⟨heq, Graph.validate_eq_ok_iff.1 hh⟩, fun ⟨heq, hh⟩ =>
      ⟨(), Graph.validate_eq_ok_iff.2 hh, heq⟩⟩

/-- The steps of a transformation that succeeds. -/
lemma transform_eq_ok (hdone : (r.transform s g).1 = .ok k) : ∃ start h n,
    prepare g = .ok start ∧ (r.exhaust passLimit 0 s start).1 = .ok (h, n) ∧
      finish h n = .ok k := by
  rw [transform] at hdone
  cases hstart : prepare g with
  | error e => simp [hstart] at hdone
  | ok start =>
    rcases hexhaust : r.exhaust passLimit 0 s start with ⟨outcome, s'⟩
    rw [hstart] at hdone
    simp only [hexhaust] at hdone
    cases outcome with
    | error e => simp at hdone
    | ok reached => exact ⟨start, reached.1, reached.2, rfl, by rw [hexhaust], hdone⟩

/-- Inferring shapes once more changes nothing. -/
lemma inferShapes_again (hinfer : g.inferShapes = .ok h) : h.inferShapes = .ok h := by
  obtain ⟨shapes, hshapes, heq⟩ := bind_eq_ok_iff.1 hinfer
  obtain rfl := Except.ok.inj heq
  exact bind_eq_ok_iff.2 ⟨shapes, hshapes, rfl⟩

/-- **Whatever the rule does, a transformation delivers a checked graph.** -/
theorem isChecked_of_transform (hdone : (r.transform s g).1 = .ok k) : k.IsChecked := by
  obtain ⟨start, h, n, hstart, hexhaust, hfinish⟩ := transform_eq_ok hdone
  obtain ⟨hg, hinfer⟩ := prepare_eq_ok_iff.1 hstart
  obtain ⟨rfl, hvalid⟩ := finish_eq_ok_iff.1 hfinish
  have hchecked : start.IsChecked := .of_inferShapes hg hinfer
  obtain ⟨hfresh, -, hsame⟩ := exhaust_invariant (P := fun g => g.inferShapes = .ok g)
    (fun _ _ _ _ _ _ hinfer => inferShapes_again hinfer) (inferShapes_again hinfer) hexhaust
  -- Validation is left out only if no change has been made since the graph was validated.
  rcases hvalid with hzero | hvalid
  · rw [hsame hzero]
    exact hchecked
  · exact .of_inferShapes hvalid hfresh

lemma inputs_of_transform (hr : r.KeepsInputs) (hdone : (r.transform s g).1 = .ok k) :
    k.inputs = g.inputs := by
  obtain ⟨start, h, n, hstart, hexhaust, hfinish⟩ := transform_eq_ok hdone
  obtain ⟨-, hinfer⟩ := prepare_eq_ok_iff.1 hstart
  obtain ⟨rfl, -⟩ := finish_eq_ok_iff.1 hfinish
  have hinputs {g h : Graph α} (hinfer : g.inferShapes = .ok h) : h.inputs = g.inputs := by
    rw [Graph.eq_of_inferShapes hinfer]
  have hkept := exhaust_invariant (P := fun k => k.inputs = g.inputs)
    (fun s g' h' k hg' hchange hinfer =>
      ((hinputs hinfer).trans (hr s g' h' hchange)).trans hg') (hinputs hinfer) hexhaust
  exact hkept.1

end Rule

/-! ## Accepted transformations -/

namespace Supervised

open Comparison

variable {σ α : Type} [Element α] {strictness : Settings α} {rules : List (Rule σ α)}
  {r : Rule σ α} {g h k : Graph α} {s : σ} {names names' : List String} {result : Result α}

/-- A transformation by the rule leads from the one graph to the other, and a comparison of the
two finds no difference. -/
structure Accepted (strictness : Settings α) (r : Rule σ α) (g h : Graph α) : Prop where
  transformed : ∃ s, (r.transform s g).1 = .ok h
  alike : ∀ given ∈ strictness.assignments g.inputs,
    AlikeOn (fun e a => compare strictness.tolerance e a = none) given g h

/-- Accepted transformations by rules of a list, one after another, with the names of the rules. -/
inductive Trail (strictness : Settings α) (rules : List (Rule σ α)) :
    List String → Graph α → Graph α → Prop
  | nil (g : Graph α) : Trail strictness rules [] g g
  | cons {r : Rule σ α} {names : List String} {g h k : Graph α} (mem : r ∈ rules)
      (first : Accepted strictness r g h) (rest : Trail strictness rules names h k) :
      Trail strictness rules (r.name :: names) g k

lemma Trail.append (hgh : Trail strictness rules names g h)
    (hhk : Trail strictness rules names' h k) : Trail strictness rules (names ++ names') g k := by
  induction hgh with
  | nil => exact hhk
  | cons hr hfirst _ ih => exact .cons hr hfirst (ih hhk)

lemma accept_eq_applied {rule : String} (haccept : accept strictness rule g h = .ok (.applied k)) :
    h = k ∧ ∃ report, check g h strictness = .ok report ∧ report.isEquivalent = true := by
  unfold accept at haccept
  split at haccept
  · simp at haccept
  · obtain ⟨report, hreport, haccept⟩ := bind_eq_ok_iff.1 haccept
    rw [mapError_eq_ok_iff] at hreport
    split at haccept
    · rename_i hequivalent
      obtain ⟨⟩ := haccept
      exact ⟨rfl, report, hreport, hequivalent⟩
    · simp at haccept

/-- Supervision decides about the graph that the transformation delivers. -/
lemma apply_eq : (apply strictness r s g).1 = match (r.transform s g).1 with
    | .error e => .error (.transform e)
    | .ok h => accept strictness r.name g h := by
  rw [apply]
  rcases r.transform s g with ⟨e | h, s'⟩ <;> rfl

lemma accepted_of_apply (happly : (apply strictness r s g).1 = .ok (.applied h)) :
    Accepted strictness r g h := by
  rw [apply_eq] at happly
  cases hdone : (r.transform s g).1 with
  | error e => simp [hdone] at happly
  | ok k =>
    rw [hdone] at happly
    obtain ⟨rfl, hcheck⟩ := accept_eq_applied happly
    exact ⟨⟨s, hdone⟩, check_iff.1 hcheck⟩

/-- A rule at the head of the list declines, or the round goes on with what it made. -/
lemma sweep_cons_eq_ok_iff : (sweep strictness (r :: rules) s g).1 = .ok result ↔
    (apply strictness r s g).1 = .ok .notApplicable ∧
        (sweep strictness rules (apply strictness r s g).2 g).1 = .ok result ∨
      ∃ h later, (apply strictness r s g).1 = .ok (.applied h) ∧
        (sweep strictness rules (apply strictness r s g).2 h).1 = .ok later ∧
        result = { later with applied := r.name :: later.applied } := by
  rw [sweep]
  rcases apply strictness r s g with ⟨e | ⟨h⟩ | _, s'⟩
  · simp
  · rcases hlater : sweep strictness rules s' h with ⟨e | later, s''⟩
    · simp [hlater]
    · simp [hlater, eq_comm]
  · simp

/-- A round that changes nothing is the last one. -/
lemma rounds_succ_eq_ok_iff {n : Nat} : (rounds strictness rules (n + 1) s g).1 = .ok result ↔
    ∃ first, (sweep strictness rules s g).1 = .ok first ∧
      (first.applied = [] ∧ result = first ∨ first.applied ≠ [] ∧
        ∃ rest, (rounds strictness rules n (sweep strictness rules s g).2 first.graph).1 =
            .ok rest ∧
          result = { rest with applied := first.applied ++ rest.applied }) := by
  rw [rounds]
  rcases sweep strictness rules s g with ⟨e | first, s'⟩
  · simp
  · simp only [Except.ok.injEq, exists_eq_left', List.isEmpty_iff]
    by_cases hempty : first.applied = []
    · simp only [hempty, if_true, Except.ok.injEq, true_and, ne_eq, not_true, false_and, or_false]
      exact eq_comm
    · simp only [hempty, if_false, false_and, ne_eq, not_false_eq_true, true_and, false_or]
      rcases rounds strictness rules n s' first.graph with ⟨e | rest, s''⟩
      · simp
      · simp only [Except.ok.injEq, exists_eq_left']
        exact eq_comm

/-- A round over some of the rules follows a trail. -/
lemma trail_of_sweep {some' : List (Rule σ α)} (hsub : some' ⊆ rules)
    (hsweep : (sweep strictness some' s g).1 = .ok result) :
    Trail strictness rules result.applied g result.graph := by
  induction some' generalizing s g result with
  | nil =>
    obtain rfl := Except.ok.inj hsweep
    exact .nil g
  | cons r rest ih =>
    obtain ⟨hr, hrest⟩ := List.cons_subset.1 hsub
    rcases sweep_cons_eq_ok_iff.1 hsweep with ⟨-, hlater⟩ | ⟨h, later, happly, hlater, rfl⟩
    · exact ih hrest hlater
    · exact .cons hr (accepted_of_apply happly) (ih hrest hlater)

lemma trail_of_rounds {limit : Nat} (hrounds : (rounds strictness rules limit s g).1 = .ok result) :
    Trail strictness rules result.applied g result.graph := by
  induction limit generalizing s g result with
  | zero =>
    obtain rfl := Except.ok.inj hrounds
    exact .nil g
  | succ limit ih =>
    obtain ⟨first, hsweep, hcases⟩ := rounds_succ_eq_ok_iff.1 hrounds
    have hfirst := trail_of_sweep (List.Subset.refl rules) hsweep
    rcases hcases with ⟨-, rfl⟩ | ⟨-, rest, hrest, rfl⟩
    · exact hfirst
    · exact hfirst.append (ih hrest)

/-- **The result of a run is reached by accepted transformations**, as many as it names. -/
theorem trail_of_run (hrun : (run strictness rules s g).1 = .ok result) :
    Trail strictness rules result.applied g result.graph :=
  trail_of_rounds hrun

/-- A trail that makes a change leads to a checked graph. -/
lemma Trail.isChecked (htrail : Trail strictness rules names g k) (hchanged : names ≠ []) :
    k.IsChecked := by
  induction htrail with
  | nil => simp at hchanged
  | @cons r names g h k _ hfirst hrest ih =>
    cases hrest with
    | nil =>
      obtain ⟨s, hdone⟩ := hfirst.transformed
      exact Rule.isChecked_of_transform hdone
    | cons hr hnext hlast => exact ih (by simp)

end Supervised

end ConvFlow
